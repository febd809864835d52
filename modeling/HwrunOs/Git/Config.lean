import HwrunOs.Git.Executor

/-!
# The configuration of git

`git.conf` is read in pieces of at most 4095 bytes, usually lines, on top of built-in values. A
piece sets a key when it begins with the key, without a blank before it, and an equals sign follows
after blanks at most. The last piece that sets a key decides, whatever stands between the others.
-/

namespace HwrunOs.Git

open HwrunOs.Bytes

/-! ## Reading -/

/-- `git_config_t`. -/
structure GitConfig where
  /-- `repo_path`. -/
  repoPath : Field 256
  /-- `audit_path`. -/
  auditPath : Field 256
  /-- `remote_url`. -/
  remoteUrl : Field 256
  /-- `branch`. -/
  branch : Field 64
  /-- `auto_commit`. -/
  autoCommit : Bool
  /-- `auto_push`. -/
  autoPush : Bool
  /-- `max_size`. -/
  maxSize : Nat
  /-- `auto_compact`. -/
  autoCompact : Bool
deriving DecidableEq

/-- The built-in values. -/
def GitConfig.builtin : GitConfig where
  repoPath := Field.copy (lit "/var/lib/hwrun/git")
  auditPath := Field.copy (lit "/var/lib/hwrun/git-audit")
  remoteUrl := Field.copy []
  branch := Field.copy (lit "main")
  autoCommit := true
  autoPush := false
  maxSize := 1024 * 1024 * 1024
  autoCompact := true

/-- `git_strtrim`: what its buffer holds then, and the text it returns. The front of the buffer is
left alone; the text begins behind it. -/
def gitStrtrim (buffer : CString) : CString × CString :=
  (buffer.takeWhile isLineBlank ++ trim isLineBlank isLineBlank buffer,
    trim isLineBlank isLineBlank buffer)

/-- A switch: on for `1` and `true`. -/
def switchOf (val : CString) : Bool := val == lit "1" || val == lit "true"

/-- A size: a number and a unit, to 64 bits. -/
def sizeOfText (val : CString) : Nat :=
  let (v, unit) := strtoull val
  if unit.head? = some 71 ∨ unit.head? = some 103 then v * (1024 * 1024 * 1024) % 2 ^ 64
  else if unit.head? = some 77 ∨ unit.head? = some 109 then v * (1024 * 1024) % 2 ^ 64
  else v

/-- A value is given to a key. -/
def GitConfig.assign (config : GitConfig) (key val : CString) : GitConfig :=
  if key = lit "repo_path" then { config with repoPath := Field.copy val }
  else if key = lit "audit_path" then { config with auditPath := Field.copy val }
  else if key = lit "remote" then { config with remoteUrl := Field.copy val }
  else if key = lit "branch" then { config with branch := Field.copy val }
  else if key = lit "auto_commit" then { config with autoCommit := switchOf val }
  else if key = lit "auto_push" then { config with autoPush := switchOf val }
  else if key = lit "auto_compact" then { config with autoCompact := switchOf val }
  else if key = lit "max_size" then { config with maxSize := sizeOfText val }
  else config

/-- One turn of the loop of `git_config_load`. Of the key only the buffer is used again. -/
def configLine (config : GitConfig) (text : CString) : GitConfig :=
  match cutAt 61 text with
  | none => config
  | some (key, val) => config.assign (gitStrtrim key).1 (gitStrtrim val).2

/-- The pieces that are read: none without `HWRUN_STATE`, or when the file cannot be opened.
`files` is what files hold that can be read. -/
def configPieces (state : Option CString) (files : CString → Option CString) : List CString :=
  match state with
  | none => []
  | some dir =>
    match files (snprintf 512 (dir ++ lit "/git.conf")) with
    | none => []
    | some file => fgetsLines 4096 file

/-- `git_config_load`. -/
def gitConfigLoad (state : Option CString) (files : CString → Option CString) : GitConfig :=
  (configPieces state files).foldl configLine .builtin

/-- The context that `git_config_load` leaves. -/
def GitConfig.context (config : GitConfig) : GitContext :=
  ⟨Field.copy config.repoPath.1, Field.copy config.auditPath.1⟩

/-! ## Settings -/

/-- A piece gives a key a value: the text behind the equals sign without the blanks around it. -/
def Gives (key piece val : CString) : Prop :=
  ∃ blanks rest, piece = key ++ blanks ++ 61 :: rest ∧
    (∀ byte ∈ blanks, isLineBlank byte = true) ∧ val = trim isLineBlank isLineBlank rest

/-- A setting is what the last piece makes of it that gives its key a value, or built in. -/
def Decides {α : Type} (pieces : List CString) (key : CString) (meaning : CString → α)
    (builtin setting : α) : Prop :=
  (∃ front piece back val, pieces = front ++ piece :: back ∧ Gives key piece val ∧
    (∀ later ∈ back, ∀ other, ¬ Gives key later other) ∧ setting = meaning val) ∨
  (∀ piece ∈ pieces, ∀ val, ¬ Gives key piece val) ∧ setting = builtin

/-- Each setting of a configuration is decided by its own key. -/
structure Decided (pieces : List CString) (config : GitConfig) : Prop where
  /-- `repo_path`. -/
  repoPath : Decides pieces (lit "repo_path") Field.copy GitConfig.builtin.repoPath config.repoPath
  /-- `audit_path`. -/
  auditPath :
    Decides pieces (lit "audit_path") Field.copy GitConfig.builtin.auditPath config.auditPath
  /-- `remote_url`, under a shorter key. -/
  remoteUrl : Decides pieces (lit "remote") Field.copy GitConfig.builtin.remoteUrl config.remoteUrl
  /-- `branch`. -/
  branch : Decides pieces (lit "branch") Field.copy GitConfig.builtin.branch config.branch
  /-- `auto_commit`. -/
  autoCommit :
    Decides pieces (lit "auto_commit") switchOf GitConfig.builtin.autoCommit config.autoCommit
  /-- `auto_push`. -/
  autoPush : Decides pieces (lit "auto_push") switchOf GitConfig.builtin.autoPush config.autoPush
  /-- `max_size`. -/
  maxSize : Decides pieces (lit "max_size") sizeOfText GitConfig.builtin.maxSize config.maxSize
  /-- `auto_compact`. -/
  autoCompact :
    Decides pieces (lit "auto_compact") switchOf GitConfig.builtin.autoCompact config.autoCompact

/-! ## One piece -/

/-- A word that can be a key: not empty, without blanks and equals signs. -/
def Wordlike (key : CString) : Prop :=
  key ≠ [] ∧ ∀ byte ∈ key, isLineBlank byte = false ∧ byte ≠ 61

instance (key : CString) : Decidable (Wordlike key) := inferInstanceAs (Decidable (_ ∧ _))

variable {key piece val : CString}

/-- A word with blanks behind it is all that is left of its buffer. -/
theorem gitStrtrim_word (word : Wordlike key) {blanks : CString}
    (blank : ∀ byte ∈ blanks, isLineBlank byte = true) :
    (gitStrtrim (key ++ blanks)).1 = key := by
  obtain ⟨filled, solid⟩ := word
  have whole : key.rdropWhile isLineBlank = key :=
    rdropWhile_of_forall fun byte listed => (solid byte listed).1
  have gone : blanks.rdropWhile isLineBlank = [] := List.rdropWhile_eq_nil_iff.mpr blank
  obtain ⟨first, rest, rfl⟩ := List.exists_cons_of_ne_nil filled
  have starts : isLineBlank first ≠ true := by
    rw [(solid first (.head _)).1]
    decide
  unfold gitStrtrim trim
  dsimp only
  rw [List.cons_append, List.takeWhile_cons_of_neg starts, List.dropWhile_cons_of_neg starts,
    List.nil_append, ← List.cons_append, rdropWhile_append whole, gone, List.append_nil]

/-- A buffer that a word is left of holds the word and blanks. -/
theorem gitStrtrim_parts (word : Wordlike key) {buffer : CString}
    (left : (gitStrtrim buffer).1 = key) :
    ∃ blanks, buffer = key ++ blanks ∧ ∀ byte ∈ blanks, isLineBlank byte = true := by
  unfold gitStrtrim trim at left
  dsimp only at left
  have front : buffer.takeWhile isLineBlank = [] := by
    refine List.eq_nil_iff_forall_not_mem.mpr fun byte listed => ?_
    have blank := List.mem_takeWhile_imp listed
    have solid := (word.2 byte (left ▸ List.mem_append_left _ listed)).1
    rw [blank] at solid
    cases solid
  have all : buffer.dropWhile isLineBlank = buffer := by
    have parts := List.takeWhile_append_dropWhile (p := isLineBlank) (l := buffer)
    rw [front] at parts
    exact parts
  rw [front, all, List.nil_append] at left
  refine ⟨buffer.rtakeWhile isLineBlank, ?_, fun byte listed => List.mem_rtakeWhile_imp listed⟩
  rw [← left]
  exact (List.rdropWhile_append_rtakeWhile ..).symm

/-- What the loop does with a piece is what the piece gives. -/
theorem gives_iff (word : Wordlike key) :
    Gives key piece val ↔
      ∃ front back, cutAt 61 piece = some (front, back) ∧ (gitStrtrim front).1 = key ∧
        (gitStrtrim back).2 = val := by
  constructor
  · rintro ⟨blanks, rest, rfl, blank, rfl⟩
    have absent : (61 : UInt8) ∉ key ++ blanks := by
      intro listed
      rcases List.mem_append.mp listed with there | there
      · exact (word.2 61 there).2 rfl
      · have never := blank 61 there
        exact absurd never (by decide)
    exact ⟨key ++ blanks, rest, cutAt_append absent rest, gitStrtrim_word word blank, rfl⟩
  · rintro ⟨front, back, cut, left, rfl⟩
    obtain ⟨rfl, -⟩ := cutAt_parts cut
    obtain ⟨blanks, rfl, blank⟩ := gitStrtrim_parts word left
    exact ⟨blanks, back, rfl, blank, rfl⟩

/-! ## All pieces -/

/-- What giving a value to a key leaves alone: the settings of all other keys. -/
structure Spares (name : CString) (config next : GitConfig) : Prop where
  /-- `repo_path`. -/
  repoPath : name ≠ lit "repo_path" → next.repoPath = config.repoPath
  /-- `audit_path`. -/
  auditPath : name ≠ lit "audit_path" → next.auditPath = config.auditPath
  /-- `remote`. -/
  remoteUrl : name ≠ lit "remote" → next.remoteUrl = config.remoteUrl
  /-- `branch`. -/
  branch : name ≠ lit "branch" → next.branch = config.branch
  /-- `auto_commit`. -/
  autoCommit : name ≠ lit "auto_commit" → next.autoCommit = config.autoCommit
  /-- `auto_push`. -/
  autoPush : name ≠ lit "auto_push" → next.autoPush = config.autoPush
  /-- `max_size`. -/
  maxSize : name ≠ lit "max_size" → next.maxSize = config.maxSize
  /-- `auto_compact`. -/
  autoCompact : name ≠ lit "auto_compact" → next.autoCompact = config.autoCompact

/-- The settings of other keys are left alone. -/
theorem assign_spares (config : GitConfig) (name val : CString) :
    Spares name config (config.assign name val) := by
  unfold GitConfig.assign
  split
  case isTrue same => exact ⟨absurd same, fun _ => rfl, fun _ => rfl, fun _ => rfl, fun _ => rfl,
    fun _ => rfl, fun _ => rfl, fun _ => rfl⟩
  split
  case isTrue same => exact ⟨fun _ => rfl, absurd same, fun _ => rfl, fun _ => rfl, fun _ => rfl,
    fun _ => rfl, fun _ => rfl, fun _ => rfl⟩
  split
  case isTrue same => exact ⟨fun _ => rfl, fun _ => rfl, absurd same, fun _ => rfl, fun _ => rfl,
    fun _ => rfl, fun _ => rfl, fun _ => rfl⟩
  split
  case isTrue same => exact ⟨fun _ => rfl, fun _ => rfl, fun _ => rfl, absurd same, fun _ => rfl,
    fun _ => rfl, fun _ => rfl, fun _ => rfl⟩
  split
  case isTrue same => exact ⟨fun _ => rfl, fun _ => rfl, fun _ => rfl, fun _ => rfl, absurd same,
    fun _ => rfl, fun _ => rfl, fun _ => rfl⟩
  split
  case isTrue same => exact ⟨fun _ => rfl, fun _ => rfl, fun _ => rfl, fun _ => rfl, fun _ => rfl,
    absurd same, fun _ => rfl, fun _ => rfl⟩
  split
  case isTrue same => exact ⟨fun _ => rfl, fun _ => rfl, fun _ => rfl, fun _ => rfl, fun _ => rfl,
    fun _ => rfl, fun _ => rfl, absurd same⟩
  split
  case isTrue same => exact ⟨fun _ => rfl, fun _ => rfl, fun _ => rfl, fun _ => rfl, fun _ => rfl,
    fun _ => rfl, absurd same, fun _ => rfl⟩
  exact ⟨fun _ => rfl, fun _ => rfl, fun _ => rfl, fun _ => rfl, fun _ => rfl, fun _ => rfl,
    fun _ => rfl, fun _ => rfl⟩

/-- A setting that its own key assigns, and no other key, is decided by it. -/
theorem decides_setting {α : Type} (word : Wordlike key) {setting : GitConfig → α}
    {meaning : CString → α}
    (own : ∀ (config : GitConfig) val, setting (config.assign key val) = meaning val)
    (others : ∀ (config : GitConfig) name val, name ≠ key →
      setting (config.assign name val) = setting config)
    (pieces : List CString) (config : GitConfig) :
    Decides pieces key meaning (setting config) (setting (pieces.foldl configLine config)) := by
  induction pieces using List.reverseRecOn with
  | nil => exact .inr ⟨nofun, rfl⟩
  | append_singleton pieces piece ih =>
    rw [List.foldl_append, List.foldl_cons, List.foldl_nil]
    generalize pieces.foldl configLine config = before at ih
    by_cases given : ∃ val, Gives key piece val
    · obtain ⟨val, gives⟩ := given
      obtain ⟨front, back, cut, left, right⟩ := (gives_iff word).mp gives
      refine .inl ⟨pieces, piece, [], val, rfl, gives, nofun, ?_⟩
      unfold configLine
      rw [cut]
      dsimp only
      rw [left, right]
      exact own before val
    · have kept : setting (configLine before piece) = setting before := by
        unfold configLine
        cases cut : cutAt 61 piece with
        | none => rfl
        | some parts =>
          refine others before _ _ fun same => given ⟨(gitStrtrim parts.2).2, ?_⟩
          exact (gives_iff word).mpr ⟨parts.1, parts.2, cut, same, rfl⟩
      rw [kept]
      have silent (val : CString) : ¬ Gives key piece val := fun gives => given ⟨val, gives⟩
      rcases ih with ⟨front, last, back, val, rfl, gives, later, same⟩ | ⟨never, same⟩
      · refine .inl ⟨front, last, back ++ [piece], val, ?_, gives, ?_, same⟩
        · rw [List.append_assoc, List.cons_append]
        · intro other listed
          rcases List.mem_append.mp listed with old | new
          · exact later other old
          · rw [List.mem_singleton.mp new]
            exact silent
      · refine .inr ⟨fun other listed => ?_, same⟩
        rcases List.mem_append.mp listed with old | new
        · exact never other old
        · rw [List.mem_singleton.mp new]
          exact silent

/-- Whatever `git.conf` holds, and whether or not it can be read, each setting is what the last
piece makes of it that gives its key a value, or the built-in value if none does; the operations
of git get the paths of the settings. -/
theorem config_decided (state : Option CString) (files : CString → Option CString) :
    Decided (configPieces state files) (gitConfigLoad state files) ∧
      (gitConfigLoad state files).context.repoPath = (gitConfigLoad state files).repoPath ∧
      (gitConfigLoad state files).context.auditPath = (gitConfigLoad state files).auditPath := by
  have decided (key : CString) (word : Wordlike key) {α : Type} (setting : GitConfig → α)
      {meaning : CString → α}
      (own : ∀ (config : GitConfig) val, setting (config.assign key val) = meaning val)
      (others : ∀ (config : GitConfig) name val, name ≠ key →
        setting (config.assign name val) = setting config) :
      Decides (configPieces state files) key meaning (setting .builtin)
        (setting (gitConfigLoad state files)) := decides_setting word own others _ _
  exact ⟨⟨decided (lit "repo_path") (by decide +kernel) GitConfig.repoPath (fun _ _ => rfl)
      fun config name val => (assign_spares config name val).repoPath,
    decided (lit "audit_path") (by decide +kernel) GitConfig.auditPath (fun _ _ => rfl)
      fun config name val => (assign_spares config name val).auditPath,
    decided (lit "remote") (by decide +kernel) GitConfig.remoteUrl (fun _ _ => rfl)
      fun config name val => (assign_spares config name val).remoteUrl,
    decided (lit "branch") (by decide +kernel) GitConfig.branch (fun _ _ => rfl)
      fun config name val => (assign_spares config name val).branch,
    decided (lit "auto_commit") (by decide +kernel) GitConfig.autoCommit (fun _ _ => rfl)
      fun config name val => (assign_spares config name val).autoCommit,
    decided (lit "auto_push") (by decide +kernel) GitConfig.autoPush (fun _ _ => rfl)
      fun config name val => (assign_spares config name val).autoPush,
    decided (lit "max_size") (by decide +kernel) GitConfig.maxSize (fun _ _ => rfl)
      fun config name val => (assign_spares config name val).maxSize,
    decided (lit "auto_compact") (by decide +kernel) GitConfig.autoCompact (fun _ _ => rfl)
      fun config name val => (assign_spares config name val).autoCompact⟩,
    copy_val _, copy_val _⟩

/-- The last `branch` counts. A blank before a key hides it, and a size wraps around. -/
example :
    (gitConfigLoad (some (lit "/s")) fun path => if path = lit "/s/git.conf" then
        some (lit "branch=dev\nbranch =\tnext \n branch = hidden\nmax_size = 17179869185G\n")
      else none) =
      { GitConfig.builtin with branch := ⟨lit "next", by decide⟩, maxSize := 2 ^ 30 } := by
  decide +kernel

end HwrunOs.Git
