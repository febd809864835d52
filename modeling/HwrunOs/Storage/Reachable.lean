import HwrunOs.Storage.Registry

/-!
# What every registry satisfies

The records of a registry built by the storage calls passed the validators: names are labels,
paths are absolute and on one line, ids are hexadecimal, a snapshot lies at the path of its
volume and name, and neither volume names nor snapshots of one volume repeat. What a call does
to the registry is said once, by `Change`.
-/

namespace HwrunOs.Storage

open HwrunOs.Bytes HwrunOs.Paths HwrunOs.Runs

/-! ## Valid texts -/

/-- A name that `storage_valid_label` accepts for a buffer of 128 bytes. -/
structure IsLabel (text : CString) : Prop where
  /-- It is not empty. -/
  filled : text ≠ []
  /-- It fits its buffer. -/
  fits : text.length < 128
  /-- It holds no slash. -/
  plain : 47 ∉ text
  /-- It holds no control character. -/
  printable : ∀ byte ∈ text, isControl byte = false
  /-- It is not the current directory. -/
  dot : text ≠ lit "."
  /-- It is not the directory above. -/
  dots : text ≠ lit ".."

/-- `storage_valid_label` accepts labels only. -/
theorem storageValidLabel_ok {text : CString} (valid : storageValidLabel text 128 = 0) :
    IsLabel text := by
  unfold storageValidLabel at valid
  split at valid
  · exact absurd valid (by decide)
  · rename_i filled
    split at valid
    · exact absurd valid (by decide)
    · rename_i fits
      split at valid
      · exact absurd valid (by decide)
      · rename_i bytes
        split at valid
        · exact absurd valid (by decide)
        · rename_i dots
          simp only [List.any_eq_true, not_exists, not_and, Bool.or_eq_true, beq_iff_eq, not_or,
            Bool.not_eq_true] at bytes
          refine ⟨filled, by omega, fun slash => (bytes 47 slash).1 rfl,
            fun byte found => (bytes byte found).2, fun same => dots (.inl same),
            fun same => dots (.inr same)⟩

/-- A path that `storage_valid_path` accepts. -/
structure IsBackendPath (text : CString) : Prop where
  /-- It fits its buffer. -/
  fits : text.length < 512
  /-- It is absolute. -/
  absolute : text.head? = some 47
  /-- It holds no line feed. -/
  oneLine : newline ∉ text

/-- `storage_valid_path` accepts absolute paths on one line only. -/
theorem storageValidPath_ok {text : CString} (valid : storageValidPath text = 0) :
    IsBackendPath text := by
  unfold storageValidPath at valid
  split at valid
  · exact absurd valid (by decide)
  · split at valid
    · exact absurd valid (by decide)
    · rename_i fits
      split at valid
      · exact absurd valid (by decide)
      · rename_i absolute
        split at valid
        · exact absurd valid (by decide)
        · rename_i bytes
          simp only [List.any_eq_true, not_exists, not_and, Bool.or_eq_true, beq_iff_eq,
            not_or] at bytes
          exact ⟨by omega, not_not.mp absolute, fun feed => (bytes newline feed).1 rfl⟩

/-- A label is on one line. -/
theorem IsLabel.oneLine {text : CString} (label : IsLabel text) : newline ∉ text :=
  fun feed => absurd (label.printable newline feed) (by decide)

/-- A cleaned description is on one line and fits its buffer. -/
theorem storageSanitizeDesc_clean (text : Option CString) :
    newline ∉ storageSanitizeDesc 256 text ∧ (storageSanitizeDesc 256 text).length < 256 := by
  constructor
  · intro feed
    have kept := (List.mem_filter.mp (List.mem_of_mem_take feed)).2
    exact absurd kept (by decide)
  · rw [storageSanitizeDesc, List.length_take]
    omega

/-- An id as `storage_gen_id` makes it. -/
structure IsId (text : CString) : Prop where
  /-- It has 32 digits. -/
  length : text.length = 32
  /-- It has no byte that is trimmed from a line. -/
  solid : ∀ byte ∈ text, isLineBlank byte = false

/-- A hexadecimal digit is not a blank. -/
theorem hexDigit_solid {value : UInt8} (small : value < 16) :
    isLineBlank (hexDigit value) = false := by
  have digits : ∀ digit : Fin 16, isLineBlank (hexDigit (UInt8.ofNat digit)) = false := by
    decide +kernel
  have named := digits ⟨value.toNat, by simpa [UInt8.lt_iff_toNat_lt] using small⟩
  rwa [UInt8.ofNat_toNat] at named

/-- Generated ids are ids. -/
theorem storageGenId_isId (bytes : Fin 16 → UInt8) : IsId (storageGenId bytes) where
  length := by
    simp only [storageGenId, List.length_flatMap, List.length_cons, List.length_nil]
    simp
  solid := by
    intro byte found
    obtain ⟨source, -, digit⟩ := List.mem_flatMap.mp found
    have low : source % 16 < 16 := by
      rw [UInt8.lt_iff_toNat_lt, UInt8.toNat_mod]
      exact Nat.mod_lt _ (by decide)
    have high : source / 16 < 16 := by
      have bound := source.toNat_lt
      rw [UInt8.lt_iff_toNat_lt, UInt8.toNat_div]
      simp only [UInt8.reduceToNat]
      omega
    rcases List.mem_pair.mp digit with rfl | rfl
    · exact hexDigit_solid high
    · exact hexDigit_solid low

/-! ## Valid records -/

/-- A registered volume. -/
structure Volume.Valid (volume : Volume) : Prop where
  /-- Its id was generated. -/
  id : IsId volume.id
  /-- Its name is a label. -/
  name : IsLabel volume.name
  /-- Its path was accepted. -/
  path : IsBackendPath volume.path
  /-- Its description is clean. -/
  description : newline ∉ volume.description ∧ volume.description.length < 256
  /-- The flag is zero or one. -/
  readonly : volume.readonly = 0 ∨ volume.readonly = 1

/-- A registered snapshot. -/
structure Snapshot.Valid (ctx : Ctx) (snapshot : Snapshot) : Prop where
  /-- Its id was generated. -/
  id : IsId snapshot.id
  /-- Its name is a label. -/
  name : IsLabel snapshot.name
  /-- Its source volume had a label. -/
  volume : IsLabel snapshot.volume
  /-- It lies at its path. -/
  path : snapshot.path = snapshotPath ctx snapshot.volume snapshot.name
  /-- The flag is one. -/
  active : snapshot.active = 1

/-- A registry built by the storage calls. -/
structure Ctx.Valid (ctx : Ctx) : Prop where
  /-- Its volumes are valid. -/
  volumes : ∀ volume ∈ ctx.volumes, volume.Valid
  /-- Its snapshots are valid. -/
  snapshots : ∀ snapshot ∈ ctx.snapshots, snapshot.Valid ctx
  /-- No name is registered twice. -/
  names : (ctx.volumes.map Volume.name).Nodup
  /-- No volume has two snapshots of one name. -/
  pairs : (ctx.snapshots.map fun snapshot => (snapshot.volume, snapshot.name)).Nodup

/-- The path of a snapshot fits its buffer. -/
theorem snapshotPath_eq (ctx : Ctx) {volumeName snapshotName : CString}
    (volume : volumeName.length < 128) (name : snapshotName.length < 128) :
    snapshotPath ctx volumeName snapshotName =
      ctx.stateDir ++ 47 :: lit "snapshots" ++ 47 :: volumeName ++ 47 :: snapshotName := by
  apply snprintf_eq
  have root : (lit "snapshots").length = 9 := by decide
  have dir := ctx.dirFits
  simp only [List.length_append, List.length_cons, root]
  omega

/-- Different snapshots have different paths. -/
theorem snapshotPath_injective (ctx : Ctx) {volumeName snapshotName otherVolume other : CString}
    (volume : IsLabel volumeName) (name : IsLabel snapshotName)
    (volume' : IsLabel otherVolume) (name' : IsLabel other)
    (same : snapshotPath ctx volumeName snapshotName = snapshotPath ctx otherVolume other) :
    volumeName = otherVolume ∧ snapshotName = other := by
  rw [snapshotPath_eq ctx volume.fits name.fits, snapshotPath_eq ctx volume'.fits name'.fits,
    List.append_assoc, List.append_assoc, List.append_assoc, List.append_assoc] at same
  have tail : volumeName ++ 47 :: snapshotName = otherVolume ++ 47 :: other :=
    (List.cons.inj (List.append_cancel_left (List.append_cancel_left same))).2
  have cut := cutAt_append volume.plain snapshotName
  have cut' := cutAt_append volume'.plain other
  rw [tail, cut'] at cut
  obtain ⟨one, two⟩ := Prod.mk.inj (Option.some.inj cut)
  exact ⟨one.symm, two.symm⟩

/-! ## What a call does to the registry -/

/-- The changes a call makes to the registry, with the backend path of a volume it may create. -/
inductive Change (ctx : Ctx) : Option CString → Ctx → Prop where
  /-- None. -/
  | same {backend : Option CString} : Change ctx backend ctx
  /-- A volume with an unused name was registered. -/
  | created (host : Host) (name path : CString) (volumeDef : VolumeDef) (label : IsLabel name)
      (accepted : IsBackendPath path) (free : storageFindVolume ctx name = none) :
      Change ctx (some path)
        { ctx with volumes := newVolume host name path volumeDef :: ctx.volumes }
  /-- The first volume that answers was taken out. -/
  | dropped {backend : Option CString} (nameOrId : CString) :
      Change ctx backend { ctx with volumes := ctx.volumes.eraseP (Volume.answers nameOrId) }
  /-- A snapshot of a volume was registered. -/
  | taken {backend : Option CString} (host : Host) (volume : Volume) (snapshotName : CString)
      (label : IsLabel snapshotName) (listed : volume ∈ ctx.volumes)
      (free : storageFindSnapshotIn ctx volume.name snapshotName = none) :
      Change ctx backend { ctx with snapshots := newSnapshot host ⟨snprintf 128 volume.name,
        snprintf 512 volume.path, snapshotPath ctx volume.name snapshotName⟩ snapshotName ::
          ctx.snapshots }
  /-- The first snapshot that answers was taken out. -/
  | forgotten {backend : Option CString} (snapshotName : CString) :
      Change ctx backend
        { ctx with snapshots := ctx.snapshots.eraseP (Snapshot.answers snapshotName) }

/-- The backend path of the volume that a call may create. -/
def Action.backend : Action → Option CString
  | .createVolume volumeDef => volumeDef.path
  | _ => none

/-- `storage_create_volume` registers a volume whose name answers for no other and whose path no
other has, or changes nothing. -/
theorem storageCreateVolume_cases (host : Host) (ctx : Ctx) (volumeDef : VolumeDef) :
    (storageCreateVolume host ctx volumeDef).ctx = ctx ∨
      ∃ name path, volumeDef.path = some path ∧ IsLabel name ∧ IsBackendPath path ∧
        storageFindVolume ctx name = none ∧ (∀ other ∈ ctx.volumes, other.path ≠ path) ∧
        (storageCreateVolume host ctx volumeDef).ctx =
          { ctx with volumes := newVolume host name path volumeDef :: ctx.volumes } := by
  unfold storageCreateVolume
  split
  · rename_i name path _ located
    split
    · exact .inl rfl
    · split
      · exact .inl rfl
      · rename_i label
        split
        · exact .inl rfl
        · rename_i accepted
          have label := storageValidLabel_ok (not_not.mp label)
          have accepted := storageValidPath_ok (not_not.mp accepted)
          unfold registerVolume
          split
          · exact .inl rfl
          · rename_i free
            have free := Option.not_isSome_iff_eq_none.mp free
            split
            · exact .inl rfl
            · rename_i apart
              have apart : ∀ other ∈ ctx.volumes, other.path ≠ path := by simpa using apart
              split
              · exact .inl rfl
              · split
                · exact .inl rfl
                · dsimp only
                  split
                  · exact .inl rfl
                  · exact .inr ⟨name, path, located, label, accepted, free, apart, rfl⟩
  · exact .inl rfl

/-- `storage_create_volume` registers a volume or changes nothing. -/
theorem storageCreateVolume_change (host : Host) (ctx : Ctx) (volumeDef : VolumeDef) :
    Change ctx volumeDef.path (storageCreateVolume host ctx volumeDef).ctx := by
  rcases storageCreateVolume_cases host ctx volumeDef with
    same | ⟨name, path, located, label, accepted, free, -, created⟩
  · rw [same]
    exact .same
  · rw [created, located]
    exact .created host name path volumeDef label accepted free

/-- `storage_delete_volume` takes a record out or changes nothing. -/
theorem storageDeleteVolume_change (host : Host) (ctx : Ctx) (nameOrId : CString) :
    Change ctx none (storageDeleteVolume host ctx nameOrId).ctx := by
  have dropped (removals : List Removal) :
      Change ctx none (dropVolume host ctx nameOrId removals).ctx := .dropped nameOrId
  unfold storageDeleteVolume
  split
  · exact .same
  · split
    · exact .same
    · split
      · exact .same
      · split
        · exact .same
        · split
          · exact .same
          · split
            · exact .same
            · split
              · exact .same
              · exact dropped _
            · exact dropped _
            · exact dropped _

/-- `storage_unregister_volume` takes a record out or changes nothing. -/
theorem storageUnregisterVolume_change (host : Host) (ctx : Ctx) (nameOrId : CString) :
    Change ctx none (storageUnregisterVolume host ctx nameOrId).ctx := by
  unfold storageUnregisterVolume
  split
  · exact .same
  · split
    · exact .same
    · split
      · exact .same
      · exact .dropped nameOrId

/-- What the first phase of a snapshot found. -/
theorem snapshotCheck_ok {lstat : CString → Lstat} {ctx : Ctx} {nameOrId snapshotName : CString}
    {target : Target} (checked : snapshotCheck lstat ctx nameOrId snapshotName = .ok target) :
    ∃ volume, storageFindVolume ctx nameOrId = some volume ∧
      storageFindSnapshotIn ctx volume.name snapshotName = none ∧
      (lstat (snapshotPath ctx volume.name snapshotName) = .missing ∨
        ∃ rc, lstat (snapshotPath ctx volume.name snapshotName) = .failed rc) ∧
      target = ⟨snprintf 128 volume.name, snprintf 512 volume.path,
        snapshotPath ctx volume.name snapshotName⟩ := by
  unfold snapshotCheck at checked
  split at checked
  · cases checked
  · rename_i volume found
    split at checked
    · cases checked
    · split at checked
      · cases checked
      · rename_i free
        dsimp only at checked
        refine ⟨volume, found, Option.not_isSome_iff_eq_none.mp free, ?_⟩
        split at checked
        · cases checked
        · cases checked
        · rename_i missing
          exact ⟨.inl missing, by injection checked with same; exact same.symm⟩
        · rename_i rc failed
          exact ⟨.inr ⟨rc, failed⟩, by injection checked with same; exact same.symm⟩

/-- What a snapshot that is admitted found. -/
theorem snapshotAdmit_ok {lstat : CString → Lstat} {ctx : Ctx} {nameOrId snapshotName : CString}
    {target : Target} (admitted : snapshotAdmit lstat ctx nameOrId snapshotName = .ok target) :
    storageValidLabel snapshotName 128 = 0 ∧
      snapshotCheck lstat ctx nameOrId snapshotName = .ok target := by
  unfold snapshotAdmit at admitted
  split at admitted
  · cases admitted
  · split at admitted
    · cases admitted
    · split at admitted
      · cases admitted
      · rename_i label
        exact ⟨not_not.mp label, admitted⟩

/-- A registration adds the record, or fails and changes nothing. -/
theorem snapshotRegister_cases (host : Host) (ctx : Ctx) (target : Target)
    (snapshotName : CString) :
    ((snapshotRegister host ctx target snapshotName).1 = ctx ∧
      (snapshotRegister host ctx target snapshotName).2 ≠ 0) ∨
    (storageFindSnapshotIn ctx target.volName snapshotName = none ∧
      snapshotRegister host ctx target snapshotName =
        ({ ctx with snapshots := newSnapshot host target snapshotName :: ctx.snapshots }, 0)) := by
  unfold snapshotRegister
  split
  · exact .inl ⟨rfl, show enoent ≠ 0 by decide⟩
  · split
    · exact .inl ⟨rfl, show eexist ≠ 0 by decide⟩
    · rename_i free
      dsimp only
      split
      · rename_i failed
        exact .inl ⟨rfl, failed⟩
      · exact .inr ⟨Option.not_isSome_iff_eq_none.mp free, rfl⟩

/-- `storage_snapshot_create` registers a snapshot or changes nothing. -/
theorem storageSnapshotCreate_change (host : Host) (ctx : Ctx)
    (nameOrId snapshotName : CString) :
    Change ctx none (storageSnapshotCreate host ctx nameOrId snapshotName).ctx := by
  unfold storageSnapshotCreate
  split
  · exact .same
  · rename_i target admitted
    obtain ⟨label, checked⟩ := snapshotAdmit_ok admitted
    obtain ⟨volume, found, free, -, rfl⟩ := snapshotCheck_ok checked
    split
    · exact .same
    · split
      · exact .same
      · rcases snapshotRegister_cases host ctx ⟨snprintf 128 volume.name, snprintf 512 volume.path,
          snapshotPath ctx volume.name snapshotName⟩ snapshotName with ⟨-, failed⟩ | ⟨-, added⟩
        · dsimp only
          rw [if_pos failed]
          exact .same
        · rw [added]
          exact .taken host volume snapshotName (storageValidLabel_ok label)
            (List.mem_of_find?_eq_some found) free

/-- `storage_snapshot_restore` leaves the registry alone. -/
theorem storageSnapshotRestore_ctx (host : Host) (ctx : Ctx) (snapshotName : CString)
    (targetVolume : Option CString) :
    (storageSnapshotRestore host ctx snapshotName targetVolume).ctx = ctx := by
  unfold storageSnapshotRestore
  split
  · rfl
  · split
    · rfl
    · split
      · rfl
      · split
        · rfl
        · split
          · rfl
          · split
            · rfl
            · split <;> rfl

/-- What a snapshot that is forgotten leaves. -/
theorem snapshotForget_ok {host : Host} {ctx next : Ctx} {snapshotName : CString}
    {snapshot : Snapshot} {rc : Int}
    (forgotten : snapshotForget host ctx snapshotName = .ok (snapshot, next, rc)) :
    storageFindSnapshot ctx snapshotName = some snapshot ∧
      next = { ctx with snapshots := ctx.snapshots.eraseP (Snapshot.answers snapshotName) } := by
  unfold snapshotForget at forgotten
  split at forgotten
  · cases forgotten
  · split at forgotten
    · cases forgotten
    · split at forgotten
      · cases forgotten
      · rename_i found
        simp only [Except.ok.injEq, Prod.mk.injEq] at forgotten
        obtain ⟨rfl, rfl, -⟩ := forgotten
        exact ⟨found, rfl⟩

/-- `storage_snapshot_delete` takes a record out or changes nothing. -/
theorem storageSnapshotDelete_change (host : Host) (ctx : Ctx) (snapshotName : CString) :
    Change ctx none (storageSnapshotDelete host ctx snapshotName).ctx := by
  unfold storageSnapshotDelete
  split
  · exact .same
  · rename_i snapshot next rc forgotten
    obtain ⟨-, rfl⟩ := snapshotForget_ok forgotten
    split
    · exact .forgotten snapshotName
    · exact .forgotten snapshotName

/-- Every call makes one of the changes. -/
theorem storageStep_change (ctx : Ctx) (call : Action × Host) :
    Change ctx call.1.backend (storageStep ctx call) := by
  obtain ⟨action, host⟩ := call
  cases action with
  | createVolume volumeDef => exact storageCreateVolume_change host ctx volumeDef
  | deleteVolume nameOrId => exact storageDeleteVolume_change host ctx nameOrId
  | unregisterVolume nameOrId => exact storageUnregisterVolume_change host ctx nameOrId
  | snapshotCreate nameOrId snapshotName =>
    exact storageSnapshotCreate_change host ctx nameOrId snapshotName
  | snapshotRestore snapshotName targetVolume =>
    rw [storageStep, perform, storageSnapshotRestore_ctx]
    exact .same
  | snapshotDelete snapshotName => exact storageSnapshotDelete_change host ctx snapshotName

/-- Creating a volume changes no snapshot. -/
theorem storageCreateVolume_snapshots (host : Host) (ctx : Ctx) (volumeDef : VolumeDef) :
    (storageCreateVolume host ctx volumeDef).ctx.stateDir = ctx.stateDir ∧
      (storageCreateVolume host ctx volumeDef).ctx.snapshots = ctx.snapshots := by
  unfold storageCreateVolume registerVolume
  repeat' split
  all_goals first | exact ⟨rfl, rfl⟩ | (dsimp only; split <;> exact ⟨rfl, rfl⟩)

/-- Unregistering a volume changes no snapshot. -/
theorem storageUnregisterVolume_snapshots (host : Host) (ctx : Ctx) (nameOrId : CString) :
    (storageUnregisterVolume host ctx nameOrId).ctx.stateDir = ctx.stateDir ∧
      (storageUnregisterVolume host ctx nameOrId).ctx.snapshots = ctx.snapshots := by
  unfold storageUnregisterVolume
  repeat' split
  all_goals exact ⟨rfl, rfl⟩

/-- Deleting a volume changes no snapshot. -/
theorem storageDeleteVolume_snapshots (host : Host) (ctx : Ctx) (nameOrId : CString) :
    (storageDeleteVolume host ctx nameOrId).ctx.snapshots = ctx.snapshots := by
  unfold storageDeleteVolume
  repeat' split
  all_goals rfl

/-! ## The invariant -/

/-- A new volume is valid. -/
theorem newVolume_valid (host : Host) {name path : CString} (volumeDef : VolumeDef)
    (label : IsLabel name) (accepted : IsBackendPath path) :
    (newVolume host name path volumeDef).Valid where
  id := storageGenId_isId host.idBytes
  name := by
    rw [newVolume, snprintf_eq label.fits]
    exact label
  path := by
    rw [newVolume, snprintf_eq accepted.fits]
    exact accepted
  description := storageSanitizeDesc_clean volumeDef.description
  readonly := by
    unfold newVolume
    dsimp only
    split
    · exact .inr rfl
    · exact .inl rfl

/-- The record of a new snapshot. -/
theorem newSnapshot_eq (host : Host) {ctx : Ctx} {target : Target} {snapshotName : CString}
    (volume : target.volName.length < 128) (name : snapshotName.length < 128)
    (path : target.snapPath = snapshotPath ctx target.volName snapshotName) :
    newSnapshot host target snapshotName =
      ⟨storageGenId host.idBytes, snapshotName, target.volName, target.snapPath, host.time, 1⟩ := by
  have fits : snprintf 512 target.snapPath = target.snapPath := by
    rw [path, snapshotPath, snprintf_snprintf]
  simp only [newSnapshot, fits, snprintf_eq volume, snprintf_eq name]

/-- A snapshot stays valid in every registry with the same state directory. -/
theorem Snapshot.Valid.transfer {ctx next : Ctx} {snapshot : Snapshot}
    (valid : snapshot.Valid ctx) (same : next.stateDir = ctx.stateDir) : snapshot.Valid next where
  id := valid.id
  name := valid.name
  volume := valid.volume
  path := by rw [valid.path, snapshotPath, snapshotPath, same]
  active := valid.active

/-- Registering a snapshot under a free name keeps the registry valid. -/
theorem Ctx.Valid.register {ctx : Ctx} (valid : ctx.Valid) (host : Host) {target : Target}
    {snapshotName : CString} (volume : IsLabel target.volName) (name : IsLabel snapshotName)
    (path : target.snapPath = snapshotPath ctx target.volName snapshotName)
    (free : storageFindSnapshotIn ctx target.volName snapshotName = none) :
    Ctx.Valid { ctx with snapshots := newSnapshot host target snapshotName :: ctx.snapshots } := by
  rw [newSnapshot_eq host volume.fits name.fits path]
  refine ⟨valid.volumes, ?_, valid.names, ?_⟩
  · intro snapshot member
    rcases List.mem_cons.mp member with rfl | old
    · exact ⟨storageGenId_isId host.idBytes, name, volume, path, rfl⟩
    · exact (valid.snapshots snapshot old).transfer rfl
  · rw [List.map_cons, List.nodup_cons]
    refine ⟨?_, valid.pairs⟩
    intro taken
    obtain ⟨other, member, same⟩ := List.mem_map.mp taken
    have missed := List.find?_eq_none.mp free other member
    obtain ⟨volumeName, snapshotName⟩ := Prod.mk.inj same
    simp [volumeName, snapshotName] at missed

/-- A change keeps the registry valid. -/
theorem Ctx.Valid.change {ctx next : Ctx} {backend : Option CString} (valid : ctx.Valid)
    (change : Change ctx backend next) : next.Valid := by
  cases change with
  | same => exact valid
  | created host name path volumeDef label accepted free =>
    refine ⟨?_, fun snapshot old => (valid.snapshots snapshot old).transfer rfl, ?_, valid.pairs⟩
    · intro volume listed
      rcases List.mem_cons.mp listed with rfl | old
      · exact newVolume_valid host volumeDef label accepted
      · exact valid.volumes volume old
    · have named : (newVolume host name path volumeDef).name = name := snprintf_eq label.fits
      rw [List.map_cons, named, List.nodup_cons]
      refine ⟨?_, valid.names⟩
      intro taken
      obtain ⟨other, listed, same⟩ := List.mem_map.mp taken
      have missed := List.find?_eq_none.mp free other listed
      simp [Volume.answers, same] at missed
  | dropped nameOrId =>
    have sub : (ctx.volumes.eraseP (Volume.answers nameOrId)).Sublist ctx.volumes :=
      List.eraseP_sublist
    exact ⟨fun volume listed => valid.volumes volume (sub.mem listed),
      fun snapshot old => (valid.snapshots snapshot old).transfer rfl,
      valid.names.sublist (sub.map _), valid.pairs⟩
  | taken host volume snapshotName label listed free =>
    have source := (valid.volumes volume listed).name
    have fits : snprintf 128 volume.name = volume.name := snprintf_eq source.fits
    rw [fits]
    exact valid.register host source label rfl free
  | forgotten snapshotName =>
    have sub : (ctx.snapshots.eraseP (Snapshot.answers snapshotName)).Sublist ctx.snapshots :=
      List.eraseP_sublist
    refine ⟨valid.volumes, ?_, valid.names, valid.pairs.sublist (sub.map _)⟩
    intro snapshot member
    exact (valid.snapshots snapshot (sub.mem member)).transfer rfl

/-- `storage_impl_init` without a state file. -/
def storageInit (cwd stateDir : CString) (dirFits : stateDir.length < 240) : Ctx where
  initialized := true
  cwd := cwd
  stateDir := stateDir
  dirFits := dirFits
  volumes := []
  snapshots := []

/-- The default state directory without records. -/
def defaultInit : Ctx := storageInit (lit "/") (lit "/var/lib/hwrun") (by decide)

/-- A volume for everything under `/data`. -/
def dataDef : VolumeDef := ⟨some (lit "data"), some (lit "/data"), 0, 0, none⟩

/-- A registry without records is valid. -/
theorem storageInit_valid (cwd stateDir : CString) (dirFits : stateDir.length < 240) :
    (storageInit cwd stateDir dirFits).Valid :=
  ⟨by simp [storageInit], by simp [storageInit], by simp [storageInit], by simp [storageInit]⟩

/-- Every reachable registry is valid. -/
theorem reachable_valid (cwd stateDir : CString) (dirFits : stateDir.length < 240)
    (calls : List (Action × Host)) :
    (run storageStep (storageInit cwd stateDir dirFits) calls).Valid :=
  run_invariant Ctx.Valid (fun ctx call valid => valid.change (storageStep_change ctx call))
    (storageInit_valid cwd stateDir dirFits) calls

end HwrunOs.Storage
