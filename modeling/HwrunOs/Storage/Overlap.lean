import Mathlib.Data.List.Pairwise
import HwrunOs.Storage.Reachable

/-!
# What removals reach

`storage_create_volume` compares backend paths as strings, while deletion, the clearing before a
restore and the removal of snapshots work on directory trees. A removal reaches the files of
another volume exactly where the directories, resolved as the file system does, overlap.
-/

namespace HwrunOs.Storage

open HwrunOs.Bytes HwrunOs.Paths HwrunOs.Runs

/-- The path a removal was called with. -/
def Removal.path : Removal → CString
  | .tree path => path
  | .contents path => path
  | .empty path => path

/-- A removal takes away what is at a place. -/
def Removal.Removes (cwd : CString) (place : Path) : Removal → Prop
  | .tree path => resolve cwd path <+: place
  | .contents path => resolve cwd path <+: place ∧ place ≠ resolve cwd path
  | .empty path => place = resolve cwd path

instance (cwd : CString) (place : Path) :
    (removal : Removal) → Decidable (removal.Removes cwd place)
  | .tree path => inferInstanceAs (Decidable (resolve cwd path <+: place))
  | .contents path =>
    inferInstanceAs (Decidable (resolve cwd path <+: place ∧ place ≠ resolve cwd path))
  | .empty path => inferInstanceAs (Decidable (place = resolve cwd path))

/-- The backend directory of a volume, as the file system resolves it. -/
def directory (ctx : Ctx) (volume : Volume) : Path := resolve ctx.cwd volume.path

/-- What lies inside a directory. -/
def Inside (dir place : Path) : Prop := dir <+: place ∧ place ≠ dir

instance (dir place : Path) : Decidable (Inside dir place) :=
  inferInstanceAs (Decidable (_ ∧ _))

/-- The volume that a call deletes or clears. -/
def Action.target (ctx : Ctx) : Action → Option Volume
  | .deleteVolume nameOrId => storageFindVolume ctx nameOrId
  | .snapshotRestore snapshotName targetVolume =>
    (storageFindSnapshot ctx snapshotName).bind fun snapshot =>
      storageFindVolume ctx (wantedVolume snapshot targetVolume)
  | _ => none

/-- A call removes nothing that exists inside the directory of a volume. -/
def Spares (ctx : Ctx) (call : Action × Host) (volume : Volume) : Prop :=
  ∀ object ∈ call.2.objects, Inside (directory ctx volume) object.path →
    ∀ removal ∈ (perform call.2 ctx call.1).removals, ¬ removal.Removes ctx.cwd object.path

instance (ctx : Ctx) (call : Action × Host) (volume : Volume) :
    Decidable (Spares ctx call volume) :=
  inferInstanceAs (Decidable (∀ object ∈ call.2.objects, _))

/-- Deleting or clearing a volume spares every other registered volume, and every call spares the
readonly volumes. -/
def Protects (ctx : Ctx) (call : Action × Host) : Prop :=
  ∀ volume ∈ ctx.volumes,
    ((∃ target ∈ call.1.target ctx, volume ≠ target) ∨ volume.readonly ≠ 0) →
      Spares ctx call volume

/-- The directories do not overlap where a call removes something: the directory of a volume to
delete or clear overlaps that of no other registered volume, and a snapshot directory to remove
that of no readonly volume. A new snapshot directory matters when `lstat` fails on it for another
reason than absence. -/
def Apart (ctx : Ctx) (call : Action × Host) : Prop :=
  match call.1 with
  | .createVolume _ | .unregisterVolume _ => True
  | .deleteVolume _ | .snapshotRestore _ _ =>
    ∀ target ∈ call.1.target ctx, target.readonly = 0 → ∀ volume ∈ ctx.volumes,
      volume ≠ target → ¬ Overlap (directory ctx target) (directory ctx volume)
  | .snapshotCreate nameOrId snapshotName =>
    ∀ source ∈ storageFindVolume ctx nameOrId, storageValidLabel snapshotName 128 = 0 →
      (call.2.denied (snapshotPath ctx source.name snapshotName)).isSome →
      ∀ volume ∈ ctx.volumes, volume.readonly ≠ 0 →
        ¬ Overlap (resolve ctx.cwd (snapshotPath ctx source.name snapshotName))
          (directory ctx volume)
  | .snapshotDelete snapshotName =>
    ∀ snapshot ∈ storageFindSnapshot ctx snapshotName, ∀ volume ∈ ctx.volumes,
      volume.readonly ≠ 0 → ¬ Overlap (resolve ctx.cwd snapshot.path) (directory ctx volume)

instance (ctx : Ctx) (call : Action × Host) : Decidable (Protects ctx call) :=
  inferInstanceAs (Decidable (∀ volume ∈ ctx.volumes, _))

instance (ctx : Ctx) : (call : Action × Host) → Decidable (Apart ctx call)
  | (.createVolume _, _) => inferInstanceAs (Decidable True)
  | (.unregisterVolume _, _) => inferInstanceAs (Decidable True)
  | (.deleteVolume nameOrId, _) =>
    inferInstanceAs (Decidable (∀ target ∈ storageFindVolume ctx nameOrId, _ → _))
  | (.snapshotRestore snapshotName targetVolume, _) => inferInstanceAs (Decidable
      (∀ target ∈ (Action.snapshotRestore snapshotName targetVolume).target ctx, _ → _))
  | (.snapshotCreate nameOrId _, _) =>
    inferInstanceAs (Decidable (∀ source ∈ storageFindVolume ctx nameOrId, _ → _ → _))
  | (.snapshotDelete snapshotName, _) =>
    inferInstanceAs (Decidable (∀ snapshot ∈ storageFindSnapshot ctx snapshotName, _))

/-! ## What each call removes -/

/-- What a removal takes away lies at its path or below. -/
theorem Removal.Removes.below {cwd : CString} {place : Path} {removal : Removal}
    (removes : removal.Removes cwd place) : resolve cwd removal.path <+: place := by
  cases removal with
  | tree path => exact removes
  | contents path => exact removes.1
  | empty path =>
    obtain rfl := removes
    exact List.prefix_refl _

/-- Nothing exists at or below a path that `lstat` does not find. -/
theorem lstat_missing {host : Host} {ctx : Ctx} {path : CString}
    (missing : host.lstat ctx path = .missing) {object : Object}
    (exists_ : object ∈ host.objects) : ¬ resolve ctx.cwd path <+: object.path := by
  intro below
  unfold Host.lstat at missing
  split at missing
  · cases missing
  · dsimp only at missing
    split at missing
    · split at missing <;> cases missing
    · split at missing
      · cases missing
      · rename_i nothing
        exact nothing (List.any_eq_true.mpr ⟨object, exists_, decide_eq_true below⟩)

/-- `lstat` fails for another reason than absence only where the host denies it. -/
theorem lstat_failed {host : Host} {ctx : Ctx} {path : CString} {rc : Int}
    (failed : host.lstat ctx path = .failed rc) : (host.denied path).isSome := by
  unfold Host.lstat at failed
  split at failed
  · rename_i denied
    simp [denied]
  · dsimp only at failed
    split at failed
    · split at failed <;> cases failed
    · split at failed <;> cases failed

/-- Creating a volume removes at most a directory that was missing before. -/
theorem storageCreateVolume_removals {host : Host} {ctx : Ctx} {volumeDef : VolumeDef}
    {removal : Removal} (made : removal ∈ (storageCreateVolume host ctx volumeDef).removals) :
    host.lstat ctx removal.path = .missing := by
  have created {path : CString} (fresh : ensureDirectory host ctx path = .ok true) :
      host.lstat ctx path = .missing := by
    unfold ensureDirectory at fresh
    split at fresh
    · cases fresh
    · assumption
    · cases fresh
    · cases fresh
  unfold storageCreateVolume at made
  split at made
  · rename_i name path _ _
    split at made
    · cases made
    · split at made
      · cases made
      · split at made
        · cases made
        · unfold registerVolume at made
          split at made
          · cases made
          · split at made
            · cases made
            · split at made
              · cases made
              · rename_i new fresh
                split at made
                · dsimp only at made
                  split at made
                  · rename_i isNew
                    obtain rfl := List.mem_singleton.mp made
                    subst isNew
                    exact created fresh
                  · cases made
                · dsimp only at made
                  split at made
                  · dsimp only at made
                    split at made
                    · rename_i isNew
                      obtain rfl := List.mem_singleton.mp made
                      subst isNew
                      exact created fresh
                    · cases made
                  · cases made
  · cases made

/-- Deleting a volume removes its directory, and only when it is not readonly. -/
theorem storageDeleteVolume_removals {host : Host} {ctx : Ctx} {nameOrId : CString}
    {removal : Removal} (made : removal ∈ (storageDeleteVolume host ctx nameOrId).removals) :
    ∃ volume, storageFindVolume ctx nameOrId = some volume ∧ volume.readonly = 0 ∧
      removal.path = volume.path := by
  unfold storageDeleteVolume at made
  split at made
  · cases made
  · split at made
    · cases made
    · split at made
      · cases made
      · rename_i volume found
        split at made
        · cases made
        · rename_i writable
          refine ⟨volume, found, not_not.mp writable, ?_⟩
          split at made
          · cases made
          · split at made
            · cases made
            · split at made <;>
              · obtain rfl := List.mem_singleton.mp made
                rfl
            · cases made
            · cases made

/-- Creating a snapshot removes at most the snapshot directory that `lstat` did not find. -/
theorem storageSnapshotCreate_removals {host : Host} {ctx : Ctx}
    {nameOrId snapshotName : CString} {removal : Removal}
    (made : removal ∈ (storageSnapshotCreate host ctx nameOrId snapshotName).removals) :
    storageValidLabel snapshotName 128 = 0 ∧ ∃ source,
      storageFindVolume ctx nameOrId = some source ∧
      removal.path = snapshotPath ctx source.name snapshotName ∧
      (host.lstat ctx removal.path = .missing ∨
        ∃ rc, host.lstat ctx removal.path = .failed rc) := by
  unfold storageSnapshotCreate at made
  split at made
  · cases made
  · rename_i target admitted
    obtain ⟨label, checked⟩ := snapshotAdmit_ok admitted
    obtain ⟨source, found, -, missing, rfl⟩ := snapshotCheck_ok checked
    refine ⟨label, source, found, ?_⟩
    have cleaned (made : removal ∈ [Removal.tree (snapshotPath ctx source.name
        snapshotName)]) : removal.path = snapshotPath ctx source.name snapshotName ∧
        (host.lstat ctx removal.path = .missing ∨
          ∃ rc, host.lstat ctx removal.path = .failed rc) := by
      obtain rfl := List.mem_singleton.mp made
      exact ⟨rfl, missing⟩
    split at made
    · exact cleaned made
    · split at made
      · exact cleaned made
      · dsimp only at made
        split at made
        · exact cleaned made
        · cases made

/-- Restoring a snapshot removes at most the contents of the target volume, which is not
readonly. -/
theorem storageSnapshotRestore_removals {host : Host} {ctx : Ctx} {snapshotName : CString}
    {targetVolume : Option CString} {removal : Removal}
    (made : removal ∈
      (storageSnapshotRestore host ctx snapshotName targetVolume).removals) :
    ∃ volume ∈ (Action.snapshotRestore snapshotName targetVolume).target ctx,
      volume.readonly = 0 ∧ removal.path = volume.path := by
  unfold storageSnapshotRestore at made
  split at made
  · cases made
  · split at made
    · cases made
    · split at made
      · cases made
      · rename_i snapshot found
        split at made
        · cases made
        · rename_i volume wanted
          split at made
          · cases made
          · rename_i writable
            refine ⟨volume, ?_, not_not.mp writable, ?_⟩
            · simp only [Action.target, found, Option.bind_some]
              exact wanted
            · split at made
              · cases made
              · split at made
                · cases made
                · obtain rfl := List.mem_singleton.mp made
                  rfl

/-- Deleting a snapshot removes at most its directory. -/
theorem storageSnapshotDelete_removals {host : Host} {ctx : Ctx} {snapshotName : CString}
    {removal : Removal} (made : removal ∈ (storageSnapshotDelete host ctx snapshotName).removals) :
    ∃ snapshot, storageFindSnapshot ctx snapshotName = some snapshot ∧
      removal.path = snapshot.path := by
  unfold storageSnapshotDelete at made
  split at made
  · cases made
  · rename_i snapshot next rc forgotten
    refine ⟨snapshot, (snapshotForget_ok forgotten).1, ?_⟩
    split at made
    · obtain rfl := List.mem_singleton.mp made
      rfl
    · cases made

/-! ## Where the directories are apart -/

/-- A call whose directories are apart protects the other volumes and the readonly ones. -/
theorem protects_of_apart {ctx : Ctx} {call : Action × Host} (apart : Apart ctx call) :
    Protects ctx call := by
  obtain ⟨action, host⟩ := call
  intro volume listed concerned object exists_ inside removal made removes
  have overlap : Overlap (resolve ctx.cwd removal.path) (directory ctx volume) :=
    overlap_of_common removes.below inside.1
  -- The volume that is deleted or cleared is neither another one nor readonly.
  have other {target : Volume} (acted : target ∈ action.target ctx)
      (writable : target.readonly = 0) : volume ≠ target := by
    rcases concerned with ⟨found, member, different⟩ | readonly
    · obtain rfl := Option.some.inj (acted.symm.trans member)
      exact different
    · rintro rfl
      exact readonly writable
  have readonly (silent : action.target ctx = none) : volume.readonly ≠ 0 := by
    rcases concerned with ⟨found, member, -⟩ | readonly
    · rw [silent] at member
      cases member
    · exact readonly
  cases action with
  | createVolume volumeDef =>
    exact lstat_missing (storageCreateVolume_removals made) exists_ removes.below
  | unregisterVolume nameOrId =>
    have none : (storageUnregisterVolume host ctx nameOrId).removals = [] := by
      unfold storageUnregisterVolume
      split
      · rfl
      · split
        · rfl
        · split <;> rfl
    simp only [perform, none, List.not_mem_nil] at made
  | deleteVolume nameOrId =>
    obtain ⟨target, found, writable, path⟩ := storageDeleteVolume_removals made
    rw [path] at overlap
    exact apart target found writable volume listed (other found writable) overlap
  | snapshotRestore snapshotName targetVolume =>
    obtain ⟨target, found, writable, path⟩ := storageSnapshotRestore_removals made
    rw [path] at overlap
    exact apart target found writable volume listed (other found writable) overlap
  | snapshotCreate nameOrId snapshotName =>
    obtain ⟨label, source, found, path, missing | ⟨rc, failed⟩⟩ :=
      storageSnapshotCreate_removals made
    · exact lstat_missing missing exists_ removes.below
    · rw [path] at overlap failed
      exact apart source found label (lstat_failed failed) volume listed (readonly rfl) overlap
  | snapshotDelete snapshotName =>
    obtain ⟨snapshot, found, path⟩ := storageSnapshotDelete_removals made
    rw [path] at overlap
    exact apart snapshot found volume listed (readonly rfl) overlap

/-- In every run whose removals meet directories that are apart, no call removes anything inside
a volume it is not about or inside a readonly volume. -/
theorem removals_protected (cwd stateDir : CString) (dirFits : stateDir.length < 240)
    {calls : List (Action × Host)}
    (apart : AllSteps storageStep Apart (storageInit cwd stateDir dirFits) calls) :
    AllSteps storageStep Protects (storageInit cwd stateDir dirFits) calls :=
  apart.mono fun _ _ apart => protects_of_apart apart

/-- Where the directory of a volume to delete overlaps another one, some content of the disk is
lost with it. -/
theorem overlap_removes {ctx : Ctx} {nameOrId : CString} {target volume : Volume}
    (asked : nameOrId ≠ []) (ready : ctx.initialized = true)
    (found : storageFindVolume ctx nameOrId = some target) (writable : target.readonly = 0)
    (root : target.path ≠ lit "/")
    (overlap : Overlap (directory ctx target) (directory ctx volume)) :
    ∃ host, ¬ Spares ctx (.deleteVolume nameOrId, host) volume := by
  obtain ⟨place, below, inside⟩ : ∃ place, Inside (directory ctx target) place ∧
      Inside (directory ctx volume) place := by
    rcases overlap with above | under
    · refine ⟨directory ctx volume ++ [lit "file"], ⟨above.trans (List.prefix_append _ _), ?_⟩,
        List.prefix_append _ _, by simp⟩
      intro same
      have length := above.length_le
      rw [← same] at length
      simp only [List.length_append, List.length_singleton] at length
      omega
    · refine ⟨directory ctx target ++ [lit "file"], ⟨List.prefix_append _ _, by simp⟩,
        under.trans (List.prefix_append _ _), ?_⟩
      intro same
      have length := under.length_le
      rw [← same] at length
      simp only [List.length_append, List.length_singleton] at length
      omega
  obtain ⟨host, objects, removed, isDirectory⟩ : ∃ host : Host, host.objects = [⟨place, false⟩] ∧
      host.removeRc = 0 ∧ host.lstat ctx target.path = .directory := by
    refine ⟨{ quietHost with objects := [⟨place, false⟩] }, rfl, rfl, ?_⟩
    have other : place ≠ resolve ctx.cwd target.path := below.2
    have under : resolve ctx.cwd target.path <+: place := below.1
    simp [Host.lstat, quietHost, other, under]
  refine ⟨host, fun spares => ?_⟩
  refine spares ⟨place, false⟩ (by simp [objects]) inside (.tree target.path) ?_ below.1
  simp [perform, storageDeleteVolume, asked, ready, found, writable, root, isDirectory, removed,
    dropVolume]

/-! ## Volumes created apart -/

/-- The directory that holds all snapshots. -/
def snapshotRoot (ctx : Ctx) : Path :=
  resolve ctx.cwd (ctx.stateDir ++ 47 :: lit "snapshots")

/-- A snapshot directory lies below the directory of all snapshots. -/
theorem resolve_snapshotPath (ctx : Ctx) {volumeName snapshotName : CString}
    (volume : IsLabel volumeName) (name : IsLabel snapshotName) :
    resolve ctx.cwd (snapshotPath ctx volumeName snapshotName) =
      snapshotRoot ctx ++ [volumeName, snapshotName] := by
  rw [snapshotPath_eq ctx volume.fits name.fits,
    resolve_component (by simp) name.plain name.filled name.dot name.dots,
    resolve_component (by simp) volume.plain volume.filled volume.dot volume.dots, snapshotRoot]
  simp

/-- A readonly volume below it, spelled with a dot. -/
def archiveDef : VolumeDef := ⟨some (lit "archive"), some (lit "/data/./archive"), 0, 1, none⟩

/-- A host with a file in the archive. -/
def archiveHost : Host :=
  { quietHost with objects := [⟨[lit "data", lit "archive", lit "file"], false⟩] }

/-- Two volumes in separate directories, of which one is deleted. -/
theorem removals_protected_separate :
    AllSteps storageStep Protects defaultInit
      [(.createVolume dataDef, archiveHost),
        (.createVolume { archiveDef with path := some (lit "/archive") }, archiveHost),
        (.deleteVolume (lit "data"), archiveHost)] :=
  removals_protected _ _ _ (by decide +kernel)

/-- Deleting the volume of the directory above removes the file of the readonly volume. -/
theorem delete_removes_archive :
    ¬ AllSteps storageStep Protects defaultInit
      [(.createVolume dataDef, archiveHost), (.createVolume archiveDef, archiveHost),
        (.deleteVolume (lit "data"), archiveHost)] := by
  decide +kernel

end HwrunOs.Storage
