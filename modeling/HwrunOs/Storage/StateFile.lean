import HwrunOs.Storage.Reachable

/-!
# The state file of the storage registry

`storage_persist` writes one block for each record, a line for its kind and one `key=value`
line for each field, and `storage_load` reads such a file back: it trims every line, cuts it at
the first equals sign and copies the value into the field's buffer. What is read is the record
with the blanks at the end of its texts gone.
-/

namespace HwrunOs.Storage

open HwrunOs.Bytes HwrunOs.Paths HwrunOs.Runs

/-! ## Writing -/

/-- The fields of a volume in file order. -/
def Volume.fields (volume : Volume) : List (CString × CString) :=
  [(lit "id", volume.id), (lit "name", volume.name), (lit "path", volume.path),
    (lit "size_limit", decimal volume.sizeLimit.toNat),
    (lit "readonly", signedDecimal volume.readonly),
    (lit "created_at", decimal volume.createdAt.toNat),
    (lit "description", volume.description)]

/-- The fields of a snapshot in file order. -/
def Snapshot.fields (snapshot : Snapshot) : List (CString × CString) :=
  [(lit "id", snapshot.id), (lit "name", snapshot.name), (lit "volume", snapshot.volume),
    (lit "path", snapshot.path), (lit "created_at", decimal snapshot.createdAt.toNat),
    (lit "active", signedDecimal snapshot.active)]

/-- A line `key=value`. -/
def fieldLine (field : CString × CString) : CString := field.1 ++ 61 :: field.2

/-- The block of a record: its kind, its fields and an empty line. -/
def blockLines (kind : CString) (fields : List (CString × CString)) : List CString :=
  kind :: fields.map fieldLine ++ [[]]

/-- The comment lines at the top of the file. -/
def headerLines : List CString :=
  [lit "# HWRun OS STORAGE 注册表状态文件（可读格式，v1）",
    lit "# 自动生成，勿手改；块间以空行分隔", []]

/-- The lines `storage_persist` writes. -/
def stateLines (ctx : Ctx) : List CString :=
  headerLines ++
    ctx.volumes.flatMap (fun volume => blockLines (lit "volume") volume.fields) ++
    ctx.snapshots.flatMap fun snapshot => blockLines (lit "snapshot") snapshot.fields

/-- The text `storage_persist` writes to the state file. -/
def stateText (ctx : Ctx) : CString := (stateLines ctx).flatMap (· ++ [newline])

/-! ## Loading -/

/-- The kind of the block being read. -/
inductive RecKind where
  | none
  | volume
  | snapshot
  deriving DecidableEq

/-- The local variables of `storage_load`. -/
structure Loading where
  /-- `cur`. -/
  kind : RecKind
  /-- `v`. -/
  volume : Volume
  /-- `s`. -/
  snapshot : Snapshot
  /-- `have`. -/
  complete : Bool
  /-- `g_ctx.volumes`. -/
  volumes : List Volume
  /-- `g_ctx.snapshots`. -/
  snapshots : List Snapshot

/-- A volume after `memset`. -/
def zeroVolume : Volume := ⟨[], [], [], [], 0, 0, 0⟩

/-- A snapshot after `memset`. -/
def zeroSnapshot : Snapshot := ⟨[], [], [], [], 0, 0⟩

/-- The variables at the start. -/
def loadingStart : Loading := ⟨.none, zeroVolume, zeroSnapshot, false, [], []⟩

/-- The record read last is put in front of its list when it is complete. -/
def Loading.commit (state : Loading) : List Volume × List Snapshot :=
  match state.kind, state.complete with
  | .volume, true => (state.volume :: state.volumes, state.snapshots)
  | .snapshot, true => (state.volumes, state.snapshot :: state.snapshots)
  | _, _ => (state.volumes, state.snapshots)

/-- A field of a volume is read. -/
def Volume.setField (volume : Volume) (key value : CString) : Volume :=
  if key = lit "id" then { volume with id := snprintf 40 value }
  else if key = lit "name" then { volume with name := snprintf 128 value }
  else if key = lit "path" then { volume with path := snprintf 512 value }
  else if key = lit "description" then { volume with description := snprintf 256 value }
  else if key = lit "size_limit" then
    { volume with sizeLimit := UInt64.ofNat (strtoull value).1 }
  else if key = lit "readonly" then { volume with readonly := atoi value }
  else if key = lit "created_at" then
    { volume with createdAt := UInt64.ofNat (strtoull value).1 }
  else volume

/-- The texts that make a volume complete. -/
def Volume.named (volume : Volume) : Bool :=
  !volume.id.isEmpty && !volume.name.isEmpty && !volume.path.isEmpty

/-- A field of a snapshot is read. -/
def Snapshot.setField (snapshot : Snapshot) (key value : CString) : Snapshot :=
  if key = lit "id" then { snapshot with id := snprintf 40 value }
  else if key = lit "name" then { snapshot with name := snprintf 128 value }
  else if key = lit "volume" then { snapshot with volume := snprintf 128 value }
  else if key = lit "path" then { snapshot with path := snprintf 512 value }
  else if key = lit "created_at" then
    { snapshot with createdAt := UInt64.ofNat (strtoull value).1 }
  else if key = lit "active" then { snapshot with active := atoi value }
  else snapshot

/-- The texts that make a snapshot complete. -/
def Snapshot.named (snapshot : Snapshot) : Bool :=
  !snapshot.id.isEmpty && !snapshot.name.isEmpty && !snapshot.volume.isEmpty &&
    !snapshot.path.isEmpty

/-- A `key=value` line of the current block. -/
def Loading.field (state : Loading) (key value : CString) : Loading :=
  match state.kind with
  | .none => state
  | .volume =>
    { state with
      volume := state.volume.setField key value
      complete := state.complete || (state.volume.setField key value).named }
  | .snapshot =>
    { state with
      snapshot := state.snapshot.setField key value
      complete := state.complete || (state.snapshot.setField key value).named }

/-- The line of a kind: the record before it is committed and a new one begun. -/
def Loading.begin (state : Loading) (kind : RecKind) : Loading where
  kind := kind
  volume := if kind = .volume then zeroVolume else state.volume
  snapshot := if kind = .snapshot then zeroSnapshot else state.snapshot
  complete := false
  volumes := state.commit.1
  snapshots := state.commit.2

/-- The loop body of `storage_load` on one line. -/
def loadLine (state : Loading) (line : CString) : Loading :=
  let text := trim isLineBlank isLineBlank line
  if text = [] ∨ text.head? = some 35 then state
  else if text = lit "volume" then state.begin .volume
  else if text = lit "snapshot" then state.begin .snapshot
  else match cutAt 61 text with
    | none => state
    | some (key, value) => state.field key value

/-- `storage_load` on the text of the state file, into an empty registry. -/
def storageLoad (file : CString) : List Volume × List Snapshot :=
  ((fgetsLines 2048 file).foldl loadLine loadingStart).commit

/-! ## One line -/

/-- Trailing blanks are trimmed from a text. -/
def trimEnd (text : CString) : CString := text.rdropWhile isLineBlank

/-- The line feed that ends a line is trimmed. -/
theorem loadLine_newline (state : Loading) (line : CString) :
    loadLine state (line ++ [newline]) = loadLine state line := by
  rw [loadLine, loadLine, trim_snoc line (by decide)]

/-- A key: no blanks, no equals sign, not empty and no comment. -/
def IsKey (key : CString) : Prop :=
  key ≠ [] ∧ key.head? ≠ some 35 ∧ ∀ byte ∈ key, isLineBlank byte = false ∧ byte ≠ 61

instance (key : CString) : Decidable (IsKey key) := inferInstanceAs (Decidable (_ ∧ _ ∧ _))

/-- The line of a field is read as its key and its value without trailing blanks. -/
theorem loadLine_field (state : Loading) {field : CString × CString} (key : IsKey field.1) :
    loadLine state (fieldLine field) = state.field field.1 (trimEnd field.2) := by
  obtain ⟨name, value⟩ := field
  obtain ⟨filled, comment, bytes⟩ := key
  dsimp only at filled comment bytes
  have text : trim isLineBlank isLineBlank (fieldLine (name, value)) =
      name ++ 61 :: trimEnd value := by
    obtain ⟨first, rest, rfl⟩ := List.exists_cons_of_ne_nil filled
    have front : (fieldLine (first :: rest, value)).dropWhile isLineBlank =
        first :: rest ++ [61] ++ value := by
      rw [fieldLine, List.cons_append,
        List.dropWhile_cons_of_neg (by simp [(bytes first List.mem_cons_self).1])]
      simp
    have solid : (first :: rest ++ [61]).rdropWhile isLineBlank = first :: rest ++ [61] :=
      rdropWhile_solid _ (by decide)
    rw [trim, front, rdropWhile_append solid, trimEnd]
    simp
  have head : (name ++ 61 :: trimEnd value).head? = name.head? := by
    obtain ⟨first, rest, rfl⟩ := List.exists_cons_of_ne_nil filled
    rfl
  have equals : 61 ∈ name ++ 61 :: trimEnd value := by simp
  have absent : 61 ∉ name := fun found => (bytes 61 found).2 rfl
  have word (kind : CString) (plain : 61 ∉ kind) : name ++ 61 :: trimEnd value ≠ kind := by
    intro same
    rw [same] at equals
    exact plain equals
  rw [loadLine, text]
  dsimp only
  rw [head, if_neg (by simp [comment]), if_neg (word _ (by decide)), if_neg (word _ (by decide)),
    cutAt_append absent]

/-- The line of a kind. -/
theorem loadLine_volume (state : Loading) :
    loadLine state (lit "volume") = state.begin .volume := by
  have text : trim isLineBlank isLineBlank (lit "volume") = lit "volume" := by decide
  rw [loadLine, text]
  rfl

/-- The line of a kind. -/
theorem loadLine_snapshot (state : Loading) :
    loadLine state (lit "snapshot") = state.begin .snapshot := by
  have text : trim isLineBlank isLineBlank (lit "snapshot") = lit "snapshot" := by decide
  rw [loadLine, text]
  rfl

/-- Comment lines and empty lines are skipped. -/
theorem loadLine_skip (state : Loading) {line : CString}
    (skipped : trim isLineBlank isLineBlank line = [] ∨
      (trim isLineBlank isLineBlank line).head? = some 35) : loadLine state line = state := by
  rw [loadLine]
  exact if_pos skipped

/-! ## Records that are written line by line -/

/-- A text of a record: not empty, inside its buffer and on one line. -/
structure IsField (cap : Nat) (text : CString) : Prop where
  /-- It is not empty. -/
  filled : text ≠ []
  /-- It fits its buffer. -/
  fits : text.length < cap
  /-- It holds no line feed. -/
  oneLine : newline ∉ text

/-- A label is a text of a record. -/
theorem IsLabel.isField {text : CString} (label : IsLabel text) : IsField 128 text :=
  ⟨label.filled, label.fits, label.oneLine⟩

/-- A volume whose fields each take one line. -/
structure Volume.Loadable (volume : Volume) : Prop where
  /-- Its id was generated. -/
  id : IsId volume.id
  /-- Its name. -/
  name : IsField 128 volume.name
  /-- Its path. -/
  path : IsField 512 volume.path
  /-- Its description may be empty. -/
  description : newline ∉ volume.description ∧ volume.description.length < 256
  /-- The flag is zero or one. -/
  readonly : volume.readonly = 0 ∨ volume.readonly = 1

/-- A snapshot whose fields each take one line. -/
structure Snapshot.Loadable (snapshot : Snapshot) : Prop where
  /-- Its id was generated. -/
  id : IsId snapshot.id
  /-- Its name. -/
  name : IsField 128 snapshot.name
  /-- Its source volume. -/
  volume : IsField 128 snapshot.volume
  /-- Its path. -/
  path : IsField 512 snapshot.path
  /-- The flag is one. -/
  active : snapshot.active = 1

/-- A path that was accepted is a text of a record. -/
theorem IsBackendPath.isField {text : CString} (accepted : IsBackendPath text) :
    IsField 512 text := by
  refine ⟨?_, accepted.fits, accepted.oneLine⟩
  rintro rfl
  exact absurd accepted.absolute (by decide)

/-- A valid volume is written line by line. -/
theorem Volume.Valid.loadable {volume : Volume} (valid : volume.Valid) : volume.Loadable :=
  ⟨valid.id, valid.name.isField, valid.path.isField, valid.description, valid.readonly⟩

/-- A valid snapshot whose path is on one line is written line by line. -/
theorem Snapshot.Valid.loadable {ctx : Ctx} {snapshot : Snapshot} (valid : snapshot.Valid ctx)
    (oneLine : newline ∉ snapshot.path) : snapshot.Loadable := by
  refine ⟨valid.id, valid.name.isField, valid.volume.isField, ⟨?_, ?_, oneLine⟩, valid.active⟩
  · rw [valid.path, snapshotPath_eq ctx valid.volume.fits valid.name.fits]
    simp
  · rw [valid.path]
    exact snprintf_length _ (by decide)

/-! ## One block -/

/-- A block with proper keys is read as its kind and its fields. -/
theorem load_block (state : Loading) (kind : CString) {fields : List (CString × CString)}
    (keys : ∀ field ∈ fields, IsKey field.1) :
    (blockLines kind fields).foldl loadLine state =
      fields.foldl (fun state field => state.field field.1 (trimEnd field.2))
        (loadLine state kind) := by
  have fold : ∀ (fields : List (CString × CString)) (state : Loading),
      (∀ field ∈ fields, IsKey field.1) →
      (fields.map fieldLine).foldl loadLine state =
        fields.foldl (fun state field => state.field field.1 (trimEnd field.2)) state := by
    intro fields
    induction fields with
    | nil => intro state _; rfl
    | cons field rest ih =>
      intro state keys
      rw [List.map_cons, List.foldl_cons, List.foldl_cons,
        loadLine_field state (keys field List.mem_cons_self),
        ih _ (fun other found => keys other (List.mem_cons_of_mem _ found))]
  rw [blockLines, List.cons_append, List.foldl_cons, List.foldl_append, fold _ _ keys,
    List.foldl_cons, List.foldl_nil]
  exact loadLine_skip _ (.inl rfl)

/-- A volume as it is read back: the blanks at the end of its texts are gone. -/
def Volume.reloaded (volume : Volume) : Volume :=
  { volume with
    name := trimEnd volume.name
    path := trimEnd volume.path
    description := trimEnd volume.description }

/-- A snapshot as it is read back. -/
def Snapshot.reloaded (snapshot : Snapshot) : Snapshot :=
  { snapshot with
    name := trimEnd snapshot.name
    volume := trimEnd snapshot.volume
    path := trimEnd snapshot.path }

/-- Trimming makes no text longer. -/
theorem trimEnd_length (text : CString) : (trimEnd text).length ≤ text.length :=
  (List.rdropWhile_prefix _ _).length_le

/-- A number has no trailing blanks. -/
theorem trimEnd_decimal (value : Nat) : trimEnd (decimal value) = decimal value := by
  apply rdropWhile_of_forall
  intro byte found
  have digit := decimal_digits value byte found
  simp only [isDigit, Bool.and_eq_true, decide_eq_true_eq, UInt8.le_iff_toNat_le] at digit
  simp only [isLineBlank, Bool.or_eq_false_iff, beq_eq_false_iff_ne, ne_eq]
  refine ⟨⟨⟨?_, ?_⟩, ?_⟩, ?_⟩ <;> rintro rfl <;> exact absurd digit.1 (by decide)

/-- A number is read back as written. -/
theorem reload_number (value : UInt64) :
    UInt64.ofNat (strtoull (trimEnd (decimal value.toNat))).1 = value := by
  rw [trimEnd_decimal, strtoull_decimal value.toNat_lt]
  exact UInt64.ofNat_toNat

/-- A flag is read back as written. -/
theorem reload_flag {value : Int} (flag : value = 0 ∨ value = 1) :
    atoi (trimEnd (signedDecimal value)) = value := by
  rcases flag with rfl | rfl <;> decide

/-- A text that fits its buffer fits it trimmed. -/
theorem reload_text {cap : Nat} {text : CString} (fits : text.length < cap) :
    snprintf cap (trimEnd text) = trimEnd text :=
  snprintf_eq (Nat.lt_of_le_of_lt (trimEnd_length text) fits)

/-- An id is read back as written. -/
theorem reload_id {id : CString} (valid : IsId id) : snprintf 40 (trimEnd id) = id := by
  have solid : trimEnd id = id := rdropWhile_of_forall valid.solid
  rw [solid, snprintf_eq (by rw [valid.length]; decide)]

/-- Reading the block of a volume commits the record before it and adds the reloaded volume when
its texts are not empty. -/
theorem load_volume {volume : Volume} (valid : volume.Loadable) (state : Loading) :
    ((blockLines (lit "volume") volume.fields).foldl loadLine state).commit =
      if volume.reloaded.named then (volume.reloaded :: state.commit.1, state.commit.2)
      else state.commit := by
  have keys : ∀ field ∈ volume.fields, IsKey field.1 := by
    simp only [Volume.fields, List.forall_mem_cons, List.not_mem_nil, false_imp_iff, implies_true,
      and_true]
    decide +kernel
  have read : volume.fields.foldl (fun state field => state.field field.1 (trimEnd field.2))
      (state.begin .volume) = ⟨.volume, volume.reloaded, state.snapshot, volume.reloaded.named,
        state.commit.1, state.commit.2⟩ := by
    simp only [Volume.fields, List.foldl_cons, List.foldl_nil, Loading.begin, Loading.field]
    simp +decide only [Volume.setField, if_true, if_false]
    rw [reload_id valid.id, reload_text valid.name.fits, reload_text valid.path.fits,
      reload_text valid.description.2, reload_number, reload_number, reload_flag valid.readonly]
    simp [Volume.named, Volume.reloaded, zeroVolume]
  rw [load_block state _ keys, loadLine_volume, read]
  cases named : volume.reloaded.named <;> simp [Loading.commit]

/-- Reading the block of a snapshot commits the record before it and adds the reloaded snapshot
when its texts are not empty. -/
theorem load_snapshot {snapshot : Snapshot} (valid : snapshot.Loadable) (state : Loading) :
    ((blockLines (lit "snapshot") snapshot.fields).foldl loadLine state).commit =
      if snapshot.reloaded.named then (state.commit.1, snapshot.reloaded :: state.commit.2)
      else state.commit := by
  have keys : ∀ field ∈ snapshot.fields, IsKey field.1 := by
    simp only [Snapshot.fields, List.forall_mem_cons, List.not_mem_nil, false_imp_iff,
      implies_true, and_true]
    decide +kernel
  have read : snapshot.fields.foldl (fun state field => state.field field.1 (trimEnd field.2))
      (state.begin .snapshot) = ⟨.snapshot, state.volume, snapshot.reloaded,
        snapshot.reloaded.named, state.commit.1, state.commit.2⟩ := by
    simp only [Snapshot.fields, List.foldl_cons, List.foldl_nil, Loading.begin, Loading.field]
    simp +decide only [Snapshot.setField, if_true, if_false]
    rw [reload_id valid.id, reload_text valid.name.fits, reload_text valid.volume.fits,
      reload_text valid.path.fits, reload_number, reload_flag (.inr valid.active)]
    simp [Snapshot.named, Snapshot.reloaded, zeroSnapshot]
  rw [load_block state _ keys, loadLine_snapshot, read]
  cases named : snapshot.reloaded.named <;> simp [Loading.commit]

/-! ## The whole file -/

/-- What a list of volume blocks adds. -/
theorem load_volumes {volumes : List Volume} (valid : ∀ volume ∈ volumes, volume.Loadable)
    (state : Loading) :
    ((volumes.flatMap fun volume => blockLines (lit "volume") volume.fields).foldl loadLine
      state).commit =
    (((volumes.map Volume.reloaded).filter Volume.named).reverse ++ state.commit.1,
      state.commit.2) := by
  induction volumes generalizing state with
  | nil => rfl
  | cons volume rest ih =>
    rw [List.flatMap_cons, List.foldl_append,
      ih (fun other found => valid other (List.mem_cons_of_mem _ found)),
      load_volume (valid volume List.mem_cons_self)]
    by_cases named : volume.reloaded.named = true
    · rw [if_pos named, List.map_cons, List.filter_cons_of_pos named]
      simp
    · rw [if_neg named, List.map_cons, List.filter_cons_of_neg named]

/-- What a list of snapshot blocks adds. -/
theorem load_snapshots {snapshots : List Snapshot}
    (valid : ∀ snapshot ∈ snapshots, snapshot.Loadable) (state : Loading) :
    ((snapshots.flatMap fun snapshot => blockLines (lit "snapshot") snapshot.fields).foldl loadLine
      state).commit =
    (state.commit.1,
      ((snapshots.map Snapshot.reloaded).filter Snapshot.named).reverse ++ state.commit.2) := by
  induction snapshots generalizing state with
  | nil => rfl
  | cons snapshot rest ih =>
    rw [List.flatMap_cons, List.foldl_append,
      ih (fun other found => valid other (List.mem_cons_of_mem _ found)),
      load_snapshot (valid snapshot List.mem_cons_self)]
    by_cases named : snapshot.reloaded.named = true
    · rw [if_pos named, List.map_cons, List.filter_cons_of_pos named]
      simp
    · rw [if_neg named, List.map_cons, List.filter_cons_of_neg named]

/-- The header is skipped. -/
theorem load_header : headerLines.foldl loadLine loadingStart = loadingStart := by
  have skipped : ∀ line ∈ headerLines, trim isLineBlank isLineBlank line = [] ∨
      (trim isLineBlank isLineBlank line).head? = some 35 := by
    decide +kernel
  have fold : ∀ (lines : List CString), (∀ line ∈ lines,
      trim isLineBlank isLineBlank line = [] ∨
        (trim isLineBlank isLineBlank line).head? = some 35) →
      lines.foldl loadLine loadingStart = loadingStart := by
    intro lines
    induction lines with
    | nil => intro _; rfl
    | cons line rest ih =>
      intro skipped
      rw [List.foldl_cons, loadLine_skip _ (skipped line List.mem_cons_self),
        ih (fun other found => skipped other (List.mem_cons_of_mem _ found))]
  exact fold _ skipped

/-- A line that `fgets` reads whole. -/
def IsLine (text : CString) : Prop := newline ∉ text ∧ text.length + 1 < 2048

instance (text : CString) : Decidable (IsLine text) := inferInstanceAs (Decidable (_ ∧ _))

/-- The line of a field with a short value on one line. -/
theorem isLine_field {key value : CString} (keyLine : newline ∉ key) (short : key.length < 20)
    (oneLine : newline ∉ value) (fits : value.length < 512) : IsLine (fieldLine (key, value)) := by
  constructor
  · simp only [fieldLine, List.mem_append, List.mem_cons, not_or]
    exact ⟨keyLine, by decide, oneLine⟩
  · simp only [fieldLine, List.length_append, List.length_cons]
    omega

/-- A printed flag is on one line. -/
theorem flag_isLine {value : Int} (flag : value = 0 ∨ value = 1) :
    newline ∉ signedDecimal value ∧ (signedDecimal value).length < 512 := by
  rcases flag with rfl | rfl <;> decide

/-- An id is on one line. -/
theorem IsId.oneLine {id : CString} (valid : IsId id) : newline ∉ id :=
  fun feed => absurd (valid.solid newline feed) (by decide)

/-- The lines of a volume. -/
theorem volume_isLine {volume : Volume} (valid : volume.Loadable) :
    ∀ line ∈ blockLines (lit "volume") volume.fields, IsLine line := by
  have short : ∀ value : UInt64, (decimal value.toNat).length < 512 := fun value =>
    Nat.lt_of_le_of_lt (decimal_length value.toNat_lt) (by decide)
  have flag := flag_isLine valid.readonly
  have id := valid.id.length
  have name := valid.name.fits
  have description := valid.description
  simp only [blockLines, Volume.fields, List.map_cons, List.map_nil, List.cons_append,
    List.nil_append, List.forall_mem_cons, List.not_mem_nil, false_imp_iff, implies_true, and_true]
  refine ⟨by decide, isLine_field (by decide) (by decide) valid.id.oneLine (by omega),
    isLine_field (by decide) (by decide) valid.name.oneLine (by omega),
    isLine_field (by decide) (by decide) valid.path.oneLine valid.path.fits,
    isLine_field (by decide) (by decide) (decimal_notMem rfl _) (short _),
    isLine_field (by decide) (by decide) flag.1 flag.2,
    isLine_field (by decide) (by decide) (decimal_notMem rfl _) (short _),
    isLine_field (by decide) (by decide) description.1 (by omega), by decide⟩

/-- The lines of a snapshot. -/
theorem snapshot_isLine {snapshot : Snapshot} (valid : snapshot.Loadable) :
    ∀ line ∈ blockLines (lit "snapshot") snapshot.fields, IsLine line := by
  have short : (decimal snapshot.createdAt.toNat).length < 512 :=
    Nat.lt_of_le_of_lt (decimal_length snapshot.createdAt.toNat_lt) (by decide)
  have flag := flag_isLine (.inr valid.active)
  have id := valid.id.length
  have name := valid.name.fits
  have volume := valid.volume.fits
  simp only [blockLines, Snapshot.fields, List.map_cons, List.map_nil, List.cons_append,
    List.nil_append, List.forall_mem_cons, List.not_mem_nil, false_imp_iff, implies_true, and_true]
  refine ⟨by decide, isLine_field (by decide) (by decide) valid.id.oneLine (by omega),
    isLine_field (by decide) (by decide) valid.name.oneLine (by omega),
    isLine_field (by decide) (by decide) valid.volume.oneLine (by omega),
    isLine_field (by decide) (by decide) valid.path.oneLine valid.path.fits,
    isLine_field (by decide) (by decide) (decimal_notMem rfl _) short,
    isLine_field (by decide) (by decide) flag.1 flag.2, by decide⟩

/-- Loading the text of a registry whose fields each take one line: the reloaded records whose
texts are not empty, in reverse order. -/
theorem storageLoad_loadable {ctx : Ctx} (volumes : ∀ volume ∈ ctx.volumes, volume.Loadable)
    (snapshots : ∀ snapshot ∈ ctx.snapshots, snapshot.Loadable) :
    storageLoad (stateText ctx) =
      (((ctx.volumes.map Volume.reloaded).filter Volume.named).reverse,
        ((ctx.snapshots.map Snapshot.reloaded).filter Snapshot.named).reverse) := by
  have lines : ∀ line ∈ stateLines ctx, IsLine line := by
    intro line found
    simp only [stateLines, List.mem_append, List.mem_flatMap] at found
    rcases found with (header | ⟨volume, listed, member⟩) | ⟨snapshot, listed, member⟩
    · revert line
      decide +kernel
    · exact volume_isLine (volumes volume listed) line member
    · exact snapshot_isLine (snapshots snapshot listed) line member
  have read : (fgetsLines 2048 (stateText ctx)).foldl loadLine loadingStart =
      (stateLines ctx).foldl loadLine loadingStart := by
    rw [stateText, fgetsLines_flatMap _ lines, List.foldl_map]
    congr 1
    funext state line
    exact loadLine_newline state line
  rw [storageLoad, read, stateLines, List.foldl_append, List.foldl_append, load_header,
    load_snapshots snapshots, load_volumes volumes]
  simp [Loading.commit, loadingStart]

/-- Loading the text of a valid registry whose snapshot paths are on one line. -/
theorem storageLoad_stateText {ctx : Ctx} (valid : ctx.Valid)
    (oneLine : ∀ snapshot ∈ ctx.snapshots, newline ∉ snapshot.path) :
    storageLoad (stateText ctx) =
      (((ctx.volumes.map Volume.reloaded).filter Volume.named).reverse,
        ((ctx.snapshots.map Snapshot.reloaded).filter Snapshot.named).reverse) :=
  storageLoad_loadable (fun volume listed => (valid.volumes volume listed).loadable)
    fun snapshot listed => (valid.snapshots snapshot listed).loadable (oneLine snapshot listed)

/-! ## Whatever the file holds -/

/-- The snapshot paths read so far are on one line. -/
def Loading.OneLine (state : Loading) : Prop :=
  newline ∉ state.snapshot.path ∧ ∀ snapshot ∈ state.snapshots, newline ∉ snapshot.path

/-- A commit keeps the paths on one line. -/
theorem Loading.OneLine.commit {state : Loading} (oneLine : state.OneLine) :
    ∀ snapshot ∈ state.commit.2, newline ∉ snapshot.path := by
  intro snapshot listed
  unfold Loading.commit at listed
  split at listed
  · exact oneLine.2 snapshot listed
  · rcases List.mem_cons.mp listed with rfl | old
    · exact oneLine.1
    · exact oneLine.2 snapshot old
  · exact oneLine.2 snapshot listed

/-- A field without line feeds keeps the path of the snapshot being read on one line. -/
theorem setField_oneLine {snapshot : Snapshot} (oneLine : newline ∉ snapshot.path)
    (key : CString) {value : CString} (plain : newline ∉ value) :
    newline ∉ (snapshot.setField key value).path := by
  have copied : newline ∉ snprintf 512 value :=
    fun feed => plain ((snprintf_begins 512 value).mem feed)
  unfold Snapshot.setField
  repeat' split
  all_goals first | exact oneLine | exact copied

/-- A line that `fgets` returned keeps the paths on one line. -/
theorem Loading.OneLine.line {state : Loading} (oneLine : state.OneLine) {text : CString}
    (plain : newline ∉ text) : (loadLine state text).OneLine := by
  have begun (kind : RecKind) : (state.begin kind).OneLine := by
    refine ⟨?_, oneLine.commit⟩
    unfold Loading.begin
    dsimp only
    split
    · simp [zeroSnapshot]
    · exact oneLine.1
  unfold loadLine
  dsimp only
  split
  · exact oneLine
  · split
    · exact begun .volume
    · split
      · exact begun .snapshot
      · split
        · exact oneLine
        · rename_i key value cut
          have inside : newline ∉ value :=
            fun feed => plain (trim_mem ((cutAt_suffix cut).mem feed))
          unfold Loading.field
          split
          · exact oneLine
          · exact oneLine
          · exact ⟨setField_oneLine oneLine.1 key inside, oneLine.2⟩

/-- A loaded snapshot path is on one line, whatever the file holds. -/
theorem storageLoad_oneLine (file : CString) :
    ∀ snapshot ∈ (storageLoad file).2, newline ∉ snapshot.path := by
  have kept : ∀ (lines : List CString) (state : Loading), state.OneLine →
      (∀ line ∈ lines, ∃ text, newline ∉ text ∧ (line = text ∨ line = text ++ [newline])) →
      (lines.foldl loadLine state).OneLine := by
    intro lines
    induction lines with
    | nil => intro state oneLine _; exact oneLine
    | cons line rest ih =>
      intro state oneLine shapes
      refine ih _ ?_ (fun other found => shapes other (List.mem_cons_of_mem _ found))
      obtain ⟨text, plain, rfl | rfl⟩ := shapes line List.mem_cons_self
      · exact oneLine.line plain
      · rw [loadLine_newline]
        exact oneLine.line plain
  have start : loadingStart.OneLine := by simp [Loading.OneLine, loadingStart, zeroSnapshot]
  exact (kept _ _ start (fgetsFrom_newline [] file (by simp))).commit

end HwrunOs.Storage
