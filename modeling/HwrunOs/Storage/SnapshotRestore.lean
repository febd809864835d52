import HwrunOs.Storage.SnapshotFiles

/-!
# Restoring a snapshot

A restore empties the volume before it copies the snapshot back, and the paths of the copy start
with the path of the volume instead of that of the snapshot. What the snapshot could take may
therefore not fit on the way back, and then the volume stays empty.
-/

namespace HwrunOs.Storage

open HwrunOs.Bytes HwrunOs.Paths HwrunOs.Runs

/-- A snapshot of a volume can be restored: both are registered, the volume is writable and has its
directory, and nothing was changed in the snapshot. The volume itself may have any contents. -/
structure Restorable (after later : Files) (ctx now : Ctx) (volume : Volume) (snapshot : Snapshot)
    (wanted : CString) (targetVolume : Option CString) : Prop where
  /-- The plugin runs. -/
  running : now.initialized = true
  /-- In the same working directory. -/
  cwd : now.cwd = ctx.cwd
  /-- The snapshot is found. -/
  recorded : storageFindSnapshot now wanted = some snapshot
  /-- Its volume is found where it was, and is writable. -/
  registered : ∃ target, storageFindVolume now (wantedVolume snapshot targetVolume) = some target ∧
    target.path = volume.path ∧ target.readonly = 0
  /-- The volume has its directory. -/
  present : later.IsDir (directory ctx volume)
  /-- The snapshot holds what it held. -/
  kept : ∀ rel, later.get (resolve ctx.cwd snapshot.path ++ rel) =
    after.get (resolve ctx.cwd snapshot.path ++ rel)

section Restore

variable {files after later : Files} {ctx now : Ctx} {volume : Volume} {snapshot : Snapshot}
  {wanted : CString} {targetVolume : Option CString}

/-- A snapshot that can be restored is copied to the cleared volume. -/
theorem snapshotRestoreOn_eq (taken : Taken files after ctx volume snapshot)
    (restorable : Restorable after later ctx now volume snapshot wanted targetVolume) :
    snapshotRestoreOn later now wanted targetVolume =
      storageCopyTree ctx.cwd (storageDirClear ctx.cwd later volume.path).1 snapshot.path
        volume.path := by
  obtain ⟨target, registered, samePath, writable⟩ := restorable.registered
  have named : wanted ≠ [] := by
    rintro rfl
    have answers := List.find?_some restorable.recorded
    have noId : snapshot.id ≠ [] := by
      intro empty
      have length := taken.id.length
      rw [empty] at length
      cases length
    simp [Snapshot.answers, noId, taken.name.filled] at answers
  have snapshotThere : lstatOn later now snapshot.path = .directory := by
    rw [lstatOn_directory, restorable.cwd]
    apply taken.present.2.1.same
    simpa using restorable.kept []
  have volumeThere : lstatOn later now target.path = .directory := by
    rw [lstatOn_directory, restorable.cwd, samePath]
    exact restorable.present
  have clears : (storageDirClear ctx.cwd later volume.path).2 = 0 :=
    (storageDirClear_clears taken.backend_ne_nil taken.backend.fits restorable.present).1
  rw [samePath] at volumeThere
  unfold snapshotRestoreOn
  rw [if_neg named, if_neg (by simp [restorable.running]), restorable.recorded]
  dsimp only
  rw [registered]
  dsimp only
  rw [samePath, if_neg (not_not.mpr writable), if_neg (not_not.mpr snapshotThere),
    if_neg (not_not.mpr volumeThere), restorable.cwd, if_neg (not_not.mpr clears)]

/-- A restore leaves a volume that fits. -/
theorem restored_fits (taken : Taken files after ctx volume snapshot)
    (restorable : Restorable after later ctx now volume snapshot wanted targetVolume) :
    Fits (snapshotRestoreOn later now wanted targetVolume).1 (directory ctx volume)
      volume.path.length := by
  obtain ⟨-, empty, same⟩ := storageDirClear_clears taken.backend_ne_nil taken.backend.fits
    restorable.present
  have dir : (storageDirClear ctx.cwd later volume.path).1.IsDir (resolve ctx.cwd volume.path) :=
    restorable.present.same (same _ fun name => not_below_self _ name)
  have wrote := @copyTree_wrote ctx.cwd 512 (storageDirClear ctx.cwd later volume.path).1
    snapshot.path volume.path taken.backend_ne_nil fun other way _ => dir.above way
  rw [snapshotRestoreOn_eq taken restorable]
  refine fun rel obj found => wrote.holds ?_ found
  intro rel obj found
  cases rel with
  | nil =>
    obtain ⟨mode, there⟩ := dir
    rw [List.append_nil, there, Option.some.injEq] at found
    subst found
    exact taken.backend.fits
  | cons name rel =>
    rw [empty] at found
    cases found

/-- Where the tree of the volume fitted at the snapshot, a restore succeeds and gives it back. -/
theorem restored_image (taken : Taken files after ctx volume snapshot)
    (working : ctx.stateDir.head? ≠ some 47 → files.IsDir (walk [] ctx.cwd))
    (plain : ∀ rel, files.get (directory ctx volume ++ rel) ≠ some .special)
    (fits : Fits files (directory ctx volume) volume.path.length)
    (restorable : Restorable after later ctx now volume snapshot wanted targetVolume) :
    (snapshotRestoreOn later now wanted targetVolume).2 = 0 ∧
      ∀ rel, (snapshotRestoreOn later now wanted targetVolume).1.get
        (directory ctx volume ++ rel) = files.get (directory ctx volume ++ rel) := by
  have apart := taken.apart working fits
  obtain ⟨short, dir, room⟩ := taken.present
  obtain ⟨-, empty, same⟩ := storageDirClear_clears taken.backend_ne_nil taken.backend.fits
    restorable.present
  rw [snapshotRestoreOn_eq taken restorable]
  generalize (storageDirClear ctx.cwd later volume.path).1 = cleared at empty same ⊢
  -- the cleared tree still holds the snapshot, and that holds the tree of the volume
  have kept (rel : Path) : cleared.get (resolve ctx.cwd snapshot.path ++ rel) =
      after.get (resolve ctx.cwd snapshot.path ++ rel) := by
    rw [same _ fun name below => apart (overlap_of_common
      ((List.prefix_append _ [name]).trans below) (List.prefix_append _ rel))]
    exact restorable.kept rel
  have holds (rel : Path) : cleared.get (resolve ctx.cwd snapshot.path ++ rel) =
      files.get (directory ctx volume ++ rel) :=
    (kept rel).trans (taken.image working plain fits rel)
  have source : cleared.IsDir (resolve ctx.cwd snapshot.path) :=
    dir.same (by simpa using kept [])
  have ready : Ready ctx.cwd cleared snapshot.path volume.path :=
    { source := taken.path_ne_nil
      started := taken.backend_ne_nil
      apart := fun overlap => apart overlap.symm
      place := .inr ⟨restorable.present.same (same _ fun name => not_below_self _ name), source⟩
      free := empty
      readable := fun rel found => room.readable short (kept rel ▸ found) }
  have copied := @copyTree_copied ctx.cwd 512 cleared snapshot.path volume.path
    (Nat.le_add_left _ _) ready
  have success : (copyTree ctx.cwd 512 cleared snapshot.path volume.path).2 = 0 := by
    apply copied.success source.found
    rintro rel ⟨mode, there⟩
    exact fits rel (.dir mode) ((holds rel).symm.trans there)
  refine ⟨success, fun rel => ?_⟩
  refine (copied.image success rel).trans ?_
  rw [holds]
  cases found : files.get (directory ctx volume ++ rel) with
  | none => rfl
  | some obj =>
    exact copiedObj_same (fits rel obj found) fun device => plain rel (device ▸ found)

/-- A snapshot of directories, files and links is restored to its volume, whatever was changed
there, exactly when it fitted the volume's path: every directory below 512 bytes, every link target
below 1024. -/
theorem restore_gives_back_iff {host : Host} {next : Ctx} {nameOrId snapshotName : CString}
    (valid : ∀ volume ∈ ctx.volumes, volume.Valid)
    (working : ctx.stateDir.head? ≠ some 47 → files.IsDir (walk [] ctx.cwd))
    (found : storageFindVolume ctx nameOrId = some volume)
    (plain : ∀ rel, files.get (directory ctx volume ++ rel) ≠ some .special)
    (created : snapshotCreateOn files host ctx nameOrId snapshotName = (after, next, 0))
    (added : next.snapshots = snapshot :: ctx.snapshots)
    (restorable : Restorable after later ctx now volume snapshot wanted targetVolume) :
    ((snapshotRestoreOn later now wanted targetVolume).2 = 0 ∧
      ∀ rel, (snapshotRestoreOn later now wanted targetVolume).1.get
        (directory ctx volume ++ rel) = files.get (directory ctx volume ++ rel)) ↔
      Fits files (directory ctx volume) volume.path.length := by
  have taken := snapshotCreateOn_taken valid found created added
  constructor
  · rintro ⟨-, same⟩ rel obj there
    exact restored_fits taken restorable rel obj ((same rel).trans there)
  · intro fits
    exact restored_image taken working plain fits restorable

end Restore

/-! ## Two volumes -/

/-- Whether everything below a place fits is a question about the objects there. -/
theorem fits_iff {files : Files} {place : Path} {bytes : Nat} :
    Fits files place bytes ↔ ∀ node ∈ files.nodes, place <+: node.1 →
      Copyable (bytes + span (node.1.drop place.length)) node.2 := by
  constructor
  · intro fits node listed below
    obtain ⟨rel, same⟩ := below
    rw [← same, List.drop_left]
    exact fits rel node.2 (Files.get_eq_some.mpr (same ▸ listed))
  · intro nodes rel obj found
    have fine := nodes _ (Files.get_eq_some.mp found) (List.prefix_append place rel)
    rwa [List.drop_left] at fine

instance (files : Files) (place : Path) (bytes : Nat) : Decidable (Fits files place bytes) :=
  decidable_of_iff _ fits_iff.symm

/-- The registry with one volume. -/
def volumeCtx (volumeDef : VolumeDef) : Ctx :=
  run storageStep defaultInit [(.createVolume volumeDef, quietHost)]

/-- Its records are valid. -/
theorem volumeCtx_valid (volumeDef : VolumeDef) :
    ∀ volume ∈ (volumeCtx volumeDef).volumes, volume.Valid :=
  (reachable_valid (lit "/") (lit "/var/lib/hwrun") (by decide) _).volumes

/-- The permission bits `rwxr-xr-x`. -/
def openMode : Mode := ⟨493, by decide⟩

/-- A root directory and nothing else. -/
def rootFiles : Files where
  nodes := [([], .dir openMode)]
  unique := by decide
  nested := by
    intro path name listed
    simp at listed

/-- A volume with a file and a link. -/
def linkedFiles : Files :=
  ((rootFiles.make [lit "data"] (.dir openMode) (by decide)).make [lit "data", lit "f"]
    (.file openMode (lit "one")) (by decide)).make [lit "data", lit "l"] (.link (lit "f"))
      (by decide)

/-- Creating the snapshot `one` of a volume. -/
def createdOne (files : Files) (volumeDef : VolumeDef) (name : CString) : Files × Ctx × Int :=
  snapshotCreateOn files quietHost (volumeCtx volumeDef) name (lit "one")

/-- The snapshot `one` was created. -/
theorem createdOne_eq {files : Files} {volumeDef : VolumeDef} {name : CString}
    (success : (createdOne files volumeDef name).2.2 = 0) :
    snapshotCreateOn files quietHost (volumeCtx volumeDef) name (lit "one") =
      ((createdOne files volumeDef name).1, (createdOne files volumeDef name).2.1, 0) := by
  rw [← success]
  rfl

/-- The record of that snapshot. -/
def snapshotOne (volumeName : CString) : Snapshot :=
  newSnapshot quietHost
    ⟨volumeName, [], snapshotPath defaultInit volumeName (lit "one")⟩ (lit "one")

/-- The record of the small volume. -/
def linkedVolume : Volume := newVolume quietHost (lit "data") (lit "/data") dataDef

/-- After its file was removed, the small volume can be restored. -/
theorem linked_restorable : Restorable (createdOne linkedFiles dataDef (lit "data")).1
    ((createdOne linkedFiles dataDef (lit "data")).1.removeTree [lit "data", lit "f"])
    (volumeCtx dataDef) (createdOne linkedFiles dataDef (lit "data")).2.1 linkedVolume
    (snapshotOne (lit "data")) (lit "one") none where
  running := by decide +kernel
  cwd := by decide +kernel
  recorded := by decide +kernel
  registered := ⟨linkedVolume, by decide +kernel⟩
  present := ⟨openMode, by decide +kernel⟩
  kept := by
    have place : resolve (volumeCtx dataDef).cwd (snapshotOne (lit "data")).path =
        [lit "var", lit "lib", lit "hwrun", lit "snapshots", lit "data", lit "one"] := by
      decide +kernel
    intro rel
    rw [place, Files.get_removeTree, if_neg]
    rintro ⟨rest, same⟩
    exact absurd (List.cons.inj same).1 (by decide)

/-- A restore then gives the small volume the tree it had. -/
theorem restore_gives_back_linked :
    (snapshotRestoreOn
        ((createdOne linkedFiles dataDef (lit "data")).1.removeTree [lit "data", lit "f"])
        (createdOne linkedFiles dataDef (lit "data")).2.1 (lit "one") none).2 = 0 ∧
      ∀ rel, (snapshotRestoreOn
        ((createdOne linkedFiles dataDef (lit "data")).1.removeTree [lit "data", lit "f"])
        (createdOne linkedFiles dataDef (lit "data")).2.1 (lit "one") none).1.get
          (directory (volumeCtx dataDef) linkedVolume ++ rel) =
            linkedFiles.get (directory (volumeCtx dataDef) linkedVolume ++ rel) := by
  have working : (volumeCtx dataDef).stateDir.head? ≠ some 47 →
      linkedFiles.IsDir (walk [] (volumeCtx dataDef).cwd) := by
    intro relative
    exact absurd (by decide +kernel) relative
  have found : storageFindVolume (volumeCtx dataDef) (lit "data") = some linkedVolume := by
    decide +kernel
  have devices : ∀ node ∈ linkedFiles.nodes, node.2 ≠ .special := by decide +kernel
  have created : (createdOne linkedFiles dataDef (lit "data")).2.2 = 0 := by decide +kernel
  have added : (createdOne linkedFiles dataDef (lit "data")).2.1.snapshots =
      snapshotOne (lit "data") :: (volumeCtx dataDef).snapshots := by decide +kernel
  have fits : Fits linkedFiles (directory (volumeCtx dataDef) linkedVolume)
      linkedVolume.path.length := by decide +kernel
  exact (restore_gives_back_iff (volumeCtx_valid dataDef) working found
    (fun _ device => devices _ (Files.get_eq_some.mp device) rfl) (createdOne_eq created) added
    linked_restorable).mpr fits

/-- A name of 250 bytes. -/
def longName : CString := List.replicate 250 97

/-- A volume with a path of 502 bytes. -/
def deepDef : VolumeDef :=
  ⟨some (lit "deep"), some (47 :: longName ++ 47 :: longName), 0, 0, none⟩

/-- The deep volume with a directory of ten more bytes. -/
def deepFiles : Files :=
  ((rootFiles.make [longName] (.dir openMode) (by decide +kernel)).make [longName, longName]
    (.dir openMode) (by decide +kernel)).make [longName, longName, lit "documents"] (.dir openMode)
      (by decide +kernel)

/-- The record of the deep volume. -/
def deepVolume : Volume :=
  newVolume quietHost (lit "deep") (47 :: longName ++ 47 :: longName) deepDef

/-- Without any change the deep volume can be restored. -/
theorem deep_restorable : Restorable (createdOne deepFiles deepDef (lit "deep")).1
    (createdOne deepFiles deepDef (lit "deep")).1 (volumeCtx deepDef)
    (createdOne deepFiles deepDef (lit "deep")).2.1 deepVolume (snapshotOne (lit "deep"))
    (lit "one") none where
  running := by decide +kernel
  cwd := by decide +kernel
  recorded := by decide +kernel
  registered := ⟨deepVolume, by decide +kernel⟩
  present := ⟨openMode, by decide +kernel⟩
  kept _ := rfl

/-- The snapshot of the deep volume is taken, and its restore fails. -/
theorem deep_restore_fails :
    ¬ ∀ (files after later : Files) (host : Host) (ctx next now : Ctx) (volume : Volume)
        (snapshot : Snapshot) (nameOrId snapshotName wanted : CString)
        (targetVolume : Option CString),
      (∀ volume ∈ ctx.volumes, volume.Valid) →
      (ctx.stateDir.head? ≠ some 47 → files.IsDir (walk [] ctx.cwd)) →
      storageFindVolume ctx nameOrId = some volume →
      (∀ rel, files.get (directory ctx volume ++ rel) ≠ some .special) →
      snapshotCreateOn files host ctx nameOrId snapshotName = (after, next, 0) →
      next.snapshots = snapshot :: ctx.snapshots →
      Restorable after later ctx now volume snapshot wanted targetVolume →
      (snapshotRestoreOn later now wanted targetVolume).2 = 0 ∧
        ∀ rel, (snapshotRestoreOn later now wanted targetVolume).1.get
          (directory ctx volume ++ rel) = files.get (directory ctx volume ++ rel) := by
  intro claim
  have working : (volumeCtx deepDef).stateDir.head? ≠ some 47 →
      deepFiles.IsDir (walk [] (volumeCtx deepDef).cwd) := by
    intro relative
    exact absurd (by decide +kernel) relative
  have found : storageFindVolume (volumeCtx deepDef) (lit "deep") = some deepVolume := by
    decide +kernel
  have devices : ∀ node ∈ deepFiles.nodes, node.2 ≠ .special := by decide +kernel
  have created : (createdOne deepFiles deepDef (lit "deep")).2.2 = 0 := by decide +kernel
  have added : (createdOne deepFiles deepDef (lit "deep")).2.1.snapshots =
      snapshotOne (lit "deep") :: (volumeCtx deepDef).snapshots := by decide +kernel
  have fails : (snapshotRestoreOn (createdOne deepFiles deepDef (lit "deep")).1
      (createdOne deepFiles deepDef (lit "deep")).2.1 (lit "one") none).2 = enametoolong := by
    decide +kernel
  have success := (claim _ _ _ _ _ _ _ _ _ _ _ _ _ (volumeCtx_valid deepDef) working found
    (fun _ device => devices _ (Files.get_eq_some.mp device) rfl) (createdOne_eq created) added
    deep_restorable).1
  exact absurd (fails.symm.trans success) (by decide)

end HwrunOs.Storage
