import HwrunOs.Library.Runs
import HwrunOs.Library.Paths

/-!
# The volume and snapshot registry

`storage_impl.c`: volumes are directories registered under a name, snapshots are copies of
them below the state directory. Every operation is a function of the registry and of what the
host answers while it runs; besides the registry and the result code it returns the directory
trees it removed. A snapshot is created in three phases, of which the middle one runs without
the lock; here they run one after the other.
-/

namespace HwrunOs.Storage

open HwrunOs.Bytes HwrunOs.Paths HwrunOs.Runs

/-! ## Result codes -/

/-- `-EPERM`. -/
def eperm : Int := -1
/-- `-ENOENT`. -/
def enoent : Int := -2
/-- `-EIO`. -/
def eio : Int := -5
/-- `-ENOMEM`. -/
def enomem : Int := -12
/-- `-EEXIST`. -/
def eexist : Int := -17
/-- `-ENOTDIR`. -/
def enotdir : Int := -20
/-- `-EINVAL`. -/
def einval : Int := -22
/-- `-ENAMETOOLONG`. -/
def enametoolong : Int := -36
/-- `HWRUN_ENOTREADY`. -/
def hwrunEnotready : Int := -(0x1000 + 2)

/-! ## Records -/

/-- `storage_volume_rec_t`. -/
structure Volume where
  /-- Id, 40 bytes. -/
  id : CString
  /-- Name, 128 bytes. -/
  name : CString
  /-- Backend directory, 512 bytes. -/
  path : CString
  /-- Description, 256 bytes. -/
  description : CString
  /-- Size limit in bytes, zero for none. -/
  sizeLimit : UInt64
  /-- Seconds since the epoch. -/
  createdAt : UInt64
  /-- Whether data may not be removed. -/
  readonly : Int
  deriving DecidableEq

/-- `storage_snapshot_rec_t`. -/
structure Snapshot where
  /-- Id, 40 bytes. -/
  id : CString
  /-- Name, 128 bytes. -/
  name : CString
  /-- Name of the source volume, 128 bytes. -/
  volume : CString
  /-- Snapshot directory, 512 bytes. -/
  path : CString
  /-- Seconds since the epoch. -/
  createdAt : UInt64
  /-- One once created. -/
  active : Int
  deriving DecidableEq

/-- `storage_ctx_t`, with the working directory that relative paths start at. -/
structure Ctx where
  /-- Set by `storage_impl_init`. -/
  initialized : Bool
  /-- Working directory of the process. -/
  cwd : CString
  /-- State directory, from `HWRUN_STATE`. -/
  stateDir : CString
  /-- `storage_impl_init` refuses a longer one. -/
  dirFits : stateDir.length < 240
  /-- Registered volumes, newest first. -/
  volumes : List Volume
  /-- Registered snapshots, newest first. -/
  snapshots : List Snapshot

/-- `hw_storage_volume_def_t`; an absent text is a null pointer. -/
structure VolumeDef where
  /-- Name of the new volume. -/
  name : Option CString
  /-- Backend directory. -/
  path : Option CString
  /-- Size limit in bytes. -/
  sizeLimit : UInt64
  /-- Not zero for a volume whose data may not be removed. -/
  readonly : Int
  /-- Description. -/
  description : Option CString

/-! ## The host -/

/-- Something that exists in the file system. -/
structure Object where
  /-- Where it is. -/
  path : Path
  /-- Whether it is a directory. -/
  directory : Bool
  deriving DecidableEq

/-- What `lstat` says. -/
inductive Lstat where
  /-- `ENOENT`. -/
  | missing
  /-- Another error, as the negative code. -/
  | failed (rc : Int)
  /-- A directory. -/
  | directory
  /-- Anything else. -/
  | other
  deriving DecidableEq

/-- What the host holds and answers during one call. -/
structure Host where
  /-- What exists when the call starts. -/
  objects : List Object
  /-- Paths `lstat` fails on for another reason than absence. -/
  denied : CString → Option Int
  /-- Result of `storage_mkdir_p` for a new backend directory. -/
  mkdirRc : Int
  /-- Whether a record can be allocated. -/
  alloc : Bool
  /-- The sixteen bytes of a new id. -/
  idBytes : Fin 16 → UInt8
  /-- `time(NULL)`. -/
  time : UInt64
  /-- Result of writing the state file. -/
  persistRc : Int
  /-- Result of `nftw` or of the removal of directory entries. -/
  removeRc : Int
  /-- Result of `storage_copy_tree`. -/
  copyRc : Int

/-- A host without files on which every call succeeds. -/
def quietHost : Host where
  objects := []
  denied _ := none
  mkdirRc := 0
  alloc := true
  idBytes _ := 171
  time := 1700000000
  persistRc := 0
  removeRc := 0
  copyRc := 0

/-- `lstat` on the objects of the host: a path with something below it is a directory. -/
def Host.lstat (host : Host) (ctx : Ctx) (path : CString) : Lstat :=
  match host.denied path with
  | some rc => .failed rc
  | none =>
    let place := resolve ctx.cwd path
    match host.objects.find? fun object => object.path == place with
    | some object => if object.directory then .directory else .other
    | none =>
      if host.objects.any fun object => decide (place <+: object.path) then .directory
      else .missing

/-- What an operation removed from the file system. -/
inductive Removal where
  /-- `storage_rm_rf`: a directory with everything below it. -/
  | tree (path : CString)
  /-- `storage_dir_clear`: everything below a directory. -/
  | contents (path : CString)
  /-- `rmdir`: an empty directory. -/
  | empty (path : CString)
  deriving DecidableEq

/-- What a call leaves: the registry, the result code and the removals it made. -/
structure Outcome where
  /-- The registry. -/
  ctx : Ctx
  /-- Zero or a negative code. -/
  rc : Int
  /-- The removals, in order. -/
  removals : List Removal

/-- A call that is refused before it did anything. -/
def refuse (ctx : Ctx) (rc : Int) : Outcome := ⟨ctx, rc, []⟩

/-! ## Validation -/

/-- A control character. -/
def isControl (byte : UInt8) : Bool := byte < 32

/-- `storage_valid_label`: a name without slash and control characters. -/
def storageValidLabel (text : CString) (maxLen : Nat) : Int :=
  if text = [] then einval
  else if maxLen ≤ text.length then enametoolong
  else if text.any fun byte => byte == 47 || isControl byte then einval
  else if text = lit "." ∨ text = lit ".." then einval
  else 0

/-- `storage_valid_path`: an absolute path without line ends. -/
def storageValidPath (text : CString) : Int :=
  if text = [] then einval
  else if 512 ≤ text.length then enametoolong
  else if text.head? ≠ some 47 then einval
  else if text.any fun byte => byte == newline || byte == 13 then einval
  else 0

/-- `storage_sanitize_desc`: line ends are left out and the rest is cut to the buffer. -/
def storageSanitizeDesc (cap : Nat) (text : Option CString) : CString :=
  ((text.getD []).filter fun byte => !(byte == newline || byte == 13)).take (cap - 1)

/-- `storage_gen_id`: two hexadecimal digits for each of the sixteen bytes. -/
def storageGenId (bytes : Fin 16 → UInt8) : CString :=
  (List.ofFn bytes).flatMap fun byte => [hexDigit (byte / 16), hexDigit (byte % 16)]

/-! ## Lookup -/

/-- A volume answers to its id and to its name. -/
def Volume.answers (nameOrId : CString) (volume : Volume) : Bool :=
  volume.id == nameOrId || volume.name == nameOrId

/-- A snapshot answers to its id and to its name. -/
def Snapshot.answers (nameOrId : CString) (snapshot : Snapshot) : Bool :=
  snapshot.id == nameOrId || snapshot.name == nameOrId

/-- `storage_find_volume`. -/
def storageFindVolume (ctx : Ctx) (nameOrId : CString) : Option Volume :=
  ctx.volumes.find? (Volume.answers nameOrId)

/-- `storage_find_snapshot`. -/
def storageFindSnapshot (ctx : Ctx) (nameOrId : CString) : Option Snapshot :=
  ctx.snapshots.find? (Snapshot.answers nameOrId)

/-- `storage_find_snapshot_in`. -/
def storageFindSnapshotIn (ctx : Ctx) (volumeName snapshotName : CString) : Option Snapshot :=
  ctx.snapshots.find? fun snapshot =>
    snapshot.volume == volumeName && snapshot.name == snapshotName

/-- The result of `storage_persist`. -/
def storagePersist (host : Host) (ctx : Ctx) : Int :=
  if ctx.stateDir = [] then einval else host.persistRc

/-! ## Volumes -/

/-- The backend directory of a new volume exists: whether it was created, or an error. -/
def ensureDirectory (host : Host) (ctx : Ctx) (path : CString) : Except Int Bool :=
  match host.lstat ctx path with
  | .failed rc => .error rc
  | .missing => if host.mkdirRc ≠ 0 then .error host.mkdirRc else .ok true
  | .directory => .ok false
  | .other => .error enotdir

/-- The record `storage_create_volume` fills in. -/
def newVolume (host : Host) (name path : CString) (volumeDef : VolumeDef) : Volume where
  id := storageGenId host.idBytes
  name := snprintf 128 name
  path := snprintf 512 path
  description := storageSanitizeDesc 256 volumeDef.description
  sizeLimit := volumeDef.sizeLimit
  createdAt := host.time
  readonly := if volumeDef.readonly ≠ 0 then 1 else 0

/-- `storage_create_volume` with texts that passed validation, under the lock. -/
def registerVolume (host : Host) (ctx : Ctx) (name path : CString) (volumeDef : VolumeDef) :
    Outcome :=
  if (storageFindVolume ctx name).isSome then refuse ctx eexist
  else if ctx.volumes.any fun other => other.path == path then refuse ctx eexist
  else match ensureDirectory host ctx path with
    | .error rc => refuse ctx rc
    | .ok created =>
      if !host.alloc then ⟨ctx, enomem, if created then [.empty path] else []⟩
      else
        let next := { ctx with volumes := newVolume host name path volumeDef :: ctx.volumes }
        if storagePersist host next ≠ 0 then
          ⟨ctx, storagePersist host next, if created then [.tree path] else []⟩
        else ⟨next, 0, []⟩

/-- `storage_create_volume`. -/
def storageCreateVolume (host : Host) (ctx : Ctx) (volumeDef : VolumeDef) : Outcome :=
  match volumeDef.name, volumeDef.path with
  | some name, some path =>
    if !ctx.initialized then refuse ctx hwrunEnotready
    else if storageValidLabel name 128 ≠ 0 then refuse ctx (storageValidLabel name 128)
    else if storageValidPath path ≠ 0 then refuse ctx (storageValidPath path)
    else registerVolume host ctx name path volumeDef
  | _, _ => refuse ctx einval

/-- A volume's record is taken out and the registry written. -/
def dropVolume (host : Host) (ctx : Ctx) (nameOrId : CString) (removals : List Removal) :
    Outcome :=
  let next := { ctx with volumes := ctx.volumes.eraseP (Volume.answers nameOrId) }
  ⟨next, storagePersist host next, removals⟩

/-- `storage_delete_volume`: an existing directory is removed with its contents first. -/
def storageDeleteVolume (host : Host) (ctx : Ctx) (nameOrId : CString) : Outcome :=
  if nameOrId = [] then refuse ctx einval
  else if !ctx.initialized then refuse ctx hwrunEnotready
  else match storageFindVolume ctx nameOrId with
    | none => refuse ctx enoent
    | some volume =>
      if volume.readonly ≠ 0 then refuse ctx eperm
      else if volume.path = lit "/" then refuse ctx einval
      else match host.lstat ctx volume.path with
        | .other => refuse ctx enotdir
        | .directory =>
          if host.removeRc ≠ 0 then
            ⟨ctx, if host.removeRc = -1 then eio else host.removeRc, [.tree volume.path]⟩
          else dropVolume host ctx nameOrId [.tree volume.path]
        | .missing | .failed _ => dropVolume host ctx nameOrId []

/-- `storage_unregister_volume`: the data stays. -/
def storageUnregisterVolume (host : Host) (ctx : Ctx) (nameOrId : CString) : Outcome :=
  if nameOrId = [] then refuse ctx einval
  else if !ctx.initialized then refuse ctx hwrunEnotready
  else match storageFindVolume ctx nameOrId with
    | none => refuse ctx enoent
    | some _ => dropVolume host ctx nameOrId []

/-! ## Snapshots -/

/-- What the first phase of `storage_snapshot_create` remembers for the others. -/
structure Target where
  /-- `vol_name`. -/
  volName : CString
  /-- `vol_path`. -/
  volPath : CString
  /-- `snap_path`. -/
  snapPath : CString
  deriving DecidableEq

/-- The directory of a snapshot: `<state_dir>/snapshots/<volume>/<snapshot>`. -/
def snapshotPath (ctx : Ctx) (volumeName snapshotName : CString) : CString :=
  snprintf 512 (ctx.stateDir ++ 47 :: lit "snapshots" ++ 47 :: volumeName ++ 47 :: snapshotName)

/-- The first phase of `storage_snapshot_create`, under the lock: the source exists, the name is
free and `lstat` does not find the snapshot directory. -/
def snapshotCheck (lstat : CString → Lstat) (ctx : Ctx) (nameOrId snapshotName : CString) :
    Except Int Target :=
  match storageFindVolume ctx nameOrId with
  | none => .error enoent
  | some volume =>
    if lstat volume.path ≠ .directory then .error enoent
    else if (storageFindSnapshotIn ctx volume.name snapshotName).isSome then .error eexist
    else
      let snapPath := snapshotPath ctx volume.name snapshotName
      match lstat snapPath with
      | .directory | .other => .error eexist
      | .missing | .failed _ =>
        .ok ⟨snprintf 128 volume.name, snprintf 512 volume.path, snapPath⟩

/-- `storage_snapshot_create` up to the end of its first phase. -/
def snapshotAdmit (lstat : CString → Lstat) (ctx : Ctx) (nameOrId snapshotName : CString) :
    Except Int Target :=
  if nameOrId = [] then .error einval
  else if !ctx.initialized then .error hwrunEnotready
  else if storageValidLabel snapshotName 128 ≠ 0 then
    .error (storageValidLabel snapshotName 128)
  else snapshotCheck lstat ctx nameOrId snapshotName

/-- The record of a new snapshot. -/
def newSnapshot (host : Host) (target : Target) (snapshotName : CString) : Snapshot where
  id := storageGenId host.idBytes
  name := snprintf 128 snapshotName
  volume := snprintf 128 target.volName
  path := snprintf 512 target.snapPath
  createdAt := host.time
  active := 1

/-- The last phase of `storage_snapshot_create`, under the lock: the copy is registered unless
its volume is gone, its name was taken meanwhile or the registry cannot be written. -/
def snapshotRegister (host : Host) (ctx : Ctx) (target : Target) (snapshotName : CString) :
    Ctx × Int :=
  if (storageFindVolume ctx target.volName).isNone then (ctx, enoent)
  else if (storageFindSnapshotIn ctx target.volName snapshotName).isSome then (ctx, eexist)
  else
    let next := { ctx with snapshots := newSnapshot host target snapshotName :: ctx.snapshots }
    if storagePersist host next ≠ 0 then (ctx, storagePersist host next) else (next, 0)

/-- `storage_snapshot_create`, with nothing else between its phases: check, copy, register, and
removal of the copy when one of them fails. -/
def storageSnapshotCreate (host : Host) (ctx : Ctx) (nameOrId snapshotName : CString) : Outcome :=
  match snapshotAdmit (host.lstat ctx) ctx nameOrId snapshotName with
  | .error rc => refuse ctx rc
  | .ok target =>
    if host.copyRc ≠ 0 then ⟨ctx, host.copyRc, [.tree target.snapPath]⟩
    else if !host.alloc then ⟨ctx, enomem, [.tree target.snapPath]⟩
    else
      let (next, rc) := snapshotRegister host ctx target snapshotName
      if rc ≠ 0 then ⟨ctx, rc, [.tree target.snapPath]⟩ else ⟨next, 0, []⟩

/-- The name or id of the volume to restore: the target when one is given, else the source. -/
def wantedVolume (snapshot : Snapshot) (targetVolume : Option CString) : CString :=
  match targetVolume with
  | some (byte :: rest) => byte :: rest
  | _ => snapshot.volume

/-- `storage_snapshot_restore`: the target volume is cleared and the snapshot copied back. -/
def storageSnapshotRestore (host : Host) (ctx : Ctx) (snapshotName : CString)
    (targetVolume : Option CString) : Outcome :=
  if snapshotName = [] then refuse ctx einval
  else if !ctx.initialized then refuse ctx hwrunEnotready
  else match storageFindSnapshot ctx snapshotName with
    | none => refuse ctx enoent
    | some snapshot =>
      match storageFindVolume ctx (wantedVolume snapshot targetVolume) with
      | none => refuse ctx enoent
      | some volume =>
        if volume.readonly ≠ 0 then refuse ctx eperm
        else if host.lstat ctx snapshot.path ≠ .directory then refuse ctx enoent
        else if host.lstat ctx volume.path ≠ .directory then refuse ctx enoent
        else ⟨ctx, if host.removeRc ≠ 0 then host.removeRc else host.copyRc,
          [.contents volume.path]⟩

/-- `storage_snapshot_delete` up to the end of its lock: the record and whether the registry was
written without it. -/
def snapshotForget (host : Host) (ctx : Ctx) (snapshotName : CString) :
    Except Int (Snapshot × Ctx × Int) :=
  if snapshotName = [] then .error einval
  else if !ctx.initialized then .error hwrunEnotready
  else match storageFindSnapshot ctx snapshotName with
    | none => .error enoent
    | some snapshot =>
      let next := { ctx with snapshots := ctx.snapshots.eraseP (Snapshot.answers snapshotName) }
      .ok (snapshot, next, storagePersist host next)

/-- `storage_snapshot_delete`: the record goes first, then an existing snapshot directory. -/
def storageSnapshotDelete (host : Host) (ctx : Ctx) (snapshotName : CString) : Outcome :=
  match snapshotForget host ctx snapshotName with
  | .error rc => refuse ctx rc
  | .ok (snapshot, next, rc) =>
    if rc = 0 ∧ host.lstat ctx snapshot.path = .directory then
      ⟨next, if host.removeRc = 0 then 0 else if host.removeRc = -1 then eio else host.removeRc,
        [.tree snapshot.path]⟩
    else ⟨next, rc, []⟩

/-! ## Runs -/

/-- A call of the storage protocol that changes something. -/
inductive Action where
  /-- `create_volume`. -/
  | createVolume (volumeDef : VolumeDef)
  /-- `delete_volume`. -/
  | deleteVolume (nameOrId : CString)
  /-- `unregister_volume`. -/
  | unregisterVolume (nameOrId : CString)
  /-- `snapshot_create`. -/
  | snapshotCreate (nameOrId snapshotName : CString)
  /-- `snapshot_restore`. -/
  | snapshotRestore (snapshotName : CString) (targetVolume : Option CString)
  /-- `snapshot_delete`. -/
  | snapshotDelete (snapshotName : CString)

/-- What a call does. -/
def perform (host : Host) (ctx : Ctx) : Action → Outcome
  | .createVolume volumeDef => storageCreateVolume host ctx volumeDef
  | .deleteVolume nameOrId => storageDeleteVolume host ctx nameOrId
  | .unregisterVolume nameOrId => storageUnregisterVolume host ctx nameOrId
  | .snapshotCreate nameOrId snapshotName =>
    storageSnapshotCreate host ctx nameOrId snapshotName
  | .snapshotRestore snapshotName targetVolume =>
    storageSnapshotRestore host ctx snapshotName targetVolume
  | .snapshotDelete snapshotName => storageSnapshotDelete host ctx snapshotName

/-- The registry after a call on a host. -/
def storageStep (ctx : Ctx) (call : Action × Host) : Ctx := (perform call.2 ctx call.1).ctx

end HwrunOs.Storage
