import HwrunOs.Library.Lookup
import HwrunOs.Storage.StateFile

/-!
# Restarting the storage plugin

The registry after a restart is what `storage_load` makes of the text `storage_persist` wrote.
It is the same registry exactly when no text ends in a blank, no snapshot path holds a line
feed and no string answers for two records, since the lists come back in reverse order.
-/

namespace HwrunOs.Storage

open HwrunOs.Bytes HwrunOs.Paths HwrunOs.Runs HwrunOs.Lookup

/-- The registry that `storage_impl_init` loads from the state file of a registry. -/
def storageRestart (ctx : Ctx) : Ctx :=
  { storageInit ctx.cwd ctx.stateDir ctx.dirFits with
    volumes := (storageLoad (stateText ctx)).1
    snapshots := (storageLoad (stateText ctx)).2 }

/-- Two registries hold the same records, and every string designates the same ones. -/
structure SameRegistry (before after : Ctx) : Prop where
  /-- The same volumes with the same fields. -/
  volumes : after.volumes.Perm before.volumes
  /-- The same snapshots with the same fields. -/
  snapshots : after.snapshots.Perm before.snapshots
  /-- Deleting and restoring act on the same volume. -/
  findVolume : ∀ nameOrId, storageFindVolume after nameOrId = storageFindVolume before nameOrId
  /-- Restoring and deleting act on the same snapshot. -/
  findSnapshot : ∀ nameOrId,
    storageFindSnapshot after nameOrId = storageFindSnapshot before nameOrId

/-- A text whose last byte is no blank. -/
def EndsSolid (text : CString) : Prop := ∀ byte ∈ text.getLast?, isLineBlank byte = false

instance (text : CString) : Decidable (EndsSolid text) :=
  inferInstanceAs (Decidable (∀ byte ∈ text.getLast?, _))

/-- The texts of a registry survive their line: no name, path or description ends in a blank
and no snapshot path holds a line feed. -/
structure TextsKept (ctx : Ctx) : Prop where
  /-- The texts of the volumes. -/
  volumes : ∀ volume ∈ ctx.volumes,
    EndsSolid volume.name ∧ EndsSolid volume.path ∧ EndsSolid volume.description
  /-- The texts of the snapshots. -/
  snapshots : ∀ snapshot ∈ ctx.snapshots,
    EndsSolid snapshot.name ∧ EndsSolid snapshot.volume ∧ newline ∉ snapshot.path

/-- No string is the name or id of two volumes, or of two snapshots. -/
structure Unambiguous (ctx : Ctx) : Prop where
  /-- Among the volumes. -/
  volumes : ∀ nameOrId, ∀ first ∈ ctx.volumes, ∀ second ∈ ctx.volumes,
    first.answers nameOrId = true → second.answers nameOrId = true → first = second
  /-- Among the snapshots. -/
  snapshots : ∀ nameOrId, ∀ first ∈ ctx.snapshots, ∀ second ∈ ctx.snapshots,
    first.answers nameOrId = true → second.answers nameOrId = true → first = second

/-! ## Trimmed texts -/

/-- Trimming keeps exactly the texts that end solid. -/
theorem trimEnd_eq_iff {text : CString} : trimEnd text = text ↔ EndsSolid text := by
  rw [trimEnd, List.rdropWhile_eq_self_iff]
  constructor
  · intro kept byte last
    obtain ⟨filled, rfl⟩ := List.mem_getLast?_eq_getLast last
    simpa using kept filled
  · intro solid filled
    have last : text.getLast filled ∈ text.getLast? := by
      rw [List.getLast?_eq_some_getLast filled]
      rfl
    simp [solid _ last]

/-- A text ends solid after trimming. -/
theorem endsSolid_trimEnd (text : CString) : EndsSolid (trimEnd text) :=
  trimEnd_eq_iff.mp (rdropWhile_rdropWhile _ _)

/-- The path of a snapshot ends as its name does. -/
theorem endsSolid_snapshotPath (ctx : Ctx) {volumeName snapshotName : CString}
    (volume : IsField 128 volumeName) (name : IsField 128 snapshotName)
    (solid : EndsSolid snapshotName) : EndsSolid (snapshotPath ctx volumeName snapshotName) := by
  rw [snapshotPath_eq ctx volume.fits name.fits]
  intro byte last
  rw [List.getLast?_append_of_ne_nil _ (List.cons_ne_nil _ _)] at last
  obtain ⟨first, rest, shape⟩ := List.exists_cons_of_ne_nil name.filled
  rw [shape, List.getLast?_cons_cons, ← shape] at last
  exact solid byte last

/-- A volume whose texts end solid is reloaded as it is. -/
theorem volume_reloaded_eq {volume : Volume} (name : EndsSolid volume.name)
    (path : EndsSolid volume.path) (description : EndsSolid volume.description) :
    volume.reloaded = volume := by
  rw [Volume.reloaded, trimEnd_eq_iff.mpr name, trimEnd_eq_iff.mpr path,
    trimEnd_eq_iff.mpr description]

/-- A snapshot whose texts end solid is reloaded as it is. -/
theorem snapshot_reloaded_eq {snapshot : Snapshot} (name : EndsSolid snapshot.name)
    (volume : EndsSolid snapshot.volume) (path : EndsSolid snapshot.path) :
    snapshot.reloaded = snapshot := by
  rw [Snapshot.reloaded, trimEnd_eq_iff.mpr name, trimEnd_eq_iff.mpr volume,
    trimEnd_eq_iff.mpr path]

/-- An id is not empty. -/
theorem IsId.filled {id : CString} (valid : IsId id) : id ≠ [] := by
  rintro rfl
  exact absurd valid.length (by decide)

/-- A volume that is written line by line has an id, a name and a path. -/
theorem Volume.Loadable.named {volume : Volume} (loadable : volume.Loadable) :
    volume.named = true := by
  simp [Volume.named, loadable.id.filled, loadable.name.filled, loadable.path.filled]

/-- A snapshot that is written line by line has an id, a name, a volume and a path. -/
theorem Snapshot.Loadable.named {snapshot : Snapshot} (loadable : snapshot.Loadable) :
    snapshot.named = true := by
  simp [Snapshot.named, loadable.id.filled, loadable.name.filled, loadable.volume.filled,
    loadable.path.filled]

/-! ## The restart -/

/-- A valid registry whose texts are kept comes back with its lists reversed. -/
theorem storageRestart_reverse {ctx : Ctx} (valid : ctx.Valid) (kept : TextsKept ctx) :
    (storageRestart ctx).volumes = ctx.volumes.reverse ∧
      (storageRestart ctx).snapshots = ctx.snapshots.reverse := by
  have volumes : (ctx.volumes.map Volume.reloaded).filter Volume.named = ctx.volumes := by
    have same : ctx.volumes.map Volume.reloaded = ctx.volumes.map id :=
      List.map_congr_left fun volume listed =>
        have solid := kept.volumes volume listed
        volume_reloaded_eq solid.1 solid.2.1 solid.2.2
    rw [same, List.map_id, List.filter_eq_self]
    exact fun volume listed => (valid.volumes volume listed).loadable.named
  have snapshots : (ctx.snapshots.map Snapshot.reloaded).filter Snapshot.named =
      ctx.snapshots := by
    have same : ctx.snapshots.map Snapshot.reloaded = ctx.snapshots.map id :=
      List.map_congr_left fun snapshot listed =>
        have solid := kept.snapshots snapshot listed
        have record := valid.snapshots snapshot listed
        have path : EndsSolid snapshot.path := record.path ▸
          endsSolid_snapshotPath ctx record.volume.isField record.name.isField solid.1
        snapshot_reloaded_eq solid.1 solid.2.1 path
    rw [same, List.map_id, List.filter_eq_self]
    exact fun snapshot listed =>
      ((valid.snapshots snapshot listed).loadable (kept.snapshots snapshot listed).2.2).named
  have loaded := storageLoad_stateText valid fun snapshot listed =>
    (kept.snapshots snapshot listed).2.2
  rw [volumes, snapshots] at loaded
  rw [storageRestart, loaded]
  exact ⟨rfl, rfl⟩

/-- Where the records come back, the texts were kept. -/
theorem textsKept_of_same {ctx : Ctx} (valid : ctx.Valid)
    (same : SameRegistry ctx (storageRestart ctx)) : TextsKept ctx := by
  have oneLine : ∀ snapshot ∈ ctx.snapshots, newline ∉ snapshot.path :=
    fun snapshot listed => storageLoad_oneLine (stateText ctx) snapshot
      (same.snapshots.mem_iff.mpr listed)
  have loaded := storageLoad_stateText valid oneLine
  refine ⟨?_, ?_⟩
  · intro volume listed
    have back : volume ∈ (storageLoad (stateText ctx)).1 := same.volumes.mem_iff.mpr listed
    rw [loaded] at back
    obtain ⟨source, -, rfl⟩ :=
      List.mem_map.mp (List.mem_of_mem_filter (List.mem_reverse.mp back))
    exact ⟨endsSolid_trimEnd _, endsSolid_trimEnd _, endsSolid_trimEnd _⟩
  · intro snapshot listed
    have back : snapshot ∈ (storageLoad (stateText ctx)).2 := same.snapshots.mem_iff.mpr listed
    rw [loaded] at back
    obtain ⟨source, -, rfl⟩ :=
      List.mem_map.mp (List.mem_of_mem_filter (List.mem_reverse.mp back))
    exact ⟨endsSolid_trimEnd _, endsSolid_trimEnd _, oneLine _ listed⟩

/-- A valid registry has no record twice. -/
theorem Ctx.Valid.nodup {ctx : Ctx} (valid : ctx.Valid) :
    ctx.volumes.Nodup ∧ ctx.snapshots.Nodup :=
  ⟨List.Nodup.of_map _ valid.names, List.Nodup.of_map _ valid.pairs⟩

/-- The registry of a valid state is the same after a restart exactly when its texts are kept
and no string is ambiguous. -/
theorem sameRegistry_iff {ctx : Ctx} (valid : ctx.Valid) :
    SameRegistry ctx (storageRestart ctx) ↔ TextsKept ctx ∧ Unambiguous ctx := by
  have lookups (kept : TextsKept ctx) :
      ((∀ nameOrId, storageFindVolume (storageRestart ctx) nameOrId =
          storageFindVolume ctx nameOrId) ∧
        ∀ nameOrId, storageFindSnapshot (storageRestart ctx) nameOrId =
          storageFindSnapshot ctx nameOrId) ↔ Unambiguous ctx := by
    obtain ⟨volumes, snapshots⟩ := storageRestart_reverse valid kept
    simp only [storageFindVolume, storageFindSnapshot, volumes, snapshots,
      find?_reverse_iff valid.nodup.1, find?_reverse_iff valid.nodup.2]
    exact ⟨fun both => ⟨both.1, both.2⟩, fun single => ⟨single.volumes, single.snapshots⟩⟩
  constructor
  · intro same
    have kept := textsKept_of_same valid same
    exact ⟨kept, (lookups kept).mp ⟨same.findVolume, same.findSnapshot⟩⟩
  · rintro ⟨kept, unambiguous⟩
    obtain ⟨volumes, snapshots⟩ := storageRestart_reverse valid kept
    obtain ⟨findVolume, findSnapshot⟩ := (lookups kept).mpr unambiguous
    refine ⟨?_, ?_, findVolume, findSnapshot⟩
    · rw [volumes]
      exact List.reverse_perm _
    · rw [snapshots]
      exact List.reverse_perm _

/-- After any calls from an empty registry, persisting and loading give the same registry
exactly when no name, path or description ends in a blank, no snapshot path holds a line feed
and no string is the name or id of two records. -/
theorem restart_same_iff (cwd stateDir : CString) (dirFits : stateDir.length < 240)
    (calls : List (Action × Host)) :
    SameRegistry (run storageStep (storageInit cwd stateDir dirFits) calls)
        (storageRestart (run storageStep (storageInit cwd stateDir dirFits) calls)) ↔
      TextsKept (run storageStep (storageInit cwd stateDir dirFits) calls) ∧
        Unambiguous (run storageStep (storageInit cwd stateDir dirFits) calls) :=
  sameRegistry_iff (reachable_valid cwd stateDir dirFits calls)

/-- One volume without blanks at its ends is the same after a restart. -/
theorem restart_same_data :
    SameRegistry (run storageStep defaultInit [(.createVolume dataDef, quietHost)])
      (storageRestart (run storageStep defaultInit [(.createVolume dataDef, quietHost)])) := by
  apply (restart_same_iff (lit "/") (lit "/var/lib/hwrun") (by decide) _).mpr
  have one :
      ((run storageStep defaultInit [(.createVolume dataDef, quietHost)]).volumes).length = 1 ∧
      (run storageStep defaultInit [(.createVolume dataDef, quietHost)]).snapshots = [] := by
    decide +kernel
  obtain ⟨volume, single⟩ := List.length_eq_one_iff.mp one.1
  have texts :
      ∀ volume ∈ (run storageStep defaultInit [(.createVolume dataDef, quietHost)]).volumes,
      EndsSolid volume.name ∧ EndsSolid volume.path ∧ EndsSolid volume.description := by
    decide +kernel
  have none : (run storageStep defaultInit [(.createVolume dataDef, quietHost)]).snapshots = [] :=
    one.2
  rw [defaultInit] at single none texts
  refine ⟨⟨texts, ?_⟩, ⟨?_, ?_⟩⟩
  · rw [none]
    simp
  · intro nameOrId first left second right _ _
    rw [single, List.mem_singleton] at left right
    rw [left, right]
  · rw [none]
    simp

/-- A volume whose directory ends in a space. -/
def spacedDef : VolumeDef where
  name := some (lit "vol")
  path := some (lit "/data/vol ")
  sizeLimit := 0
  readonly := 0
  description := none

/-- After a restart that volume has another directory. -/
theorem restart_other_directory :
    ¬ SameRegistry (run storageStep defaultInit [(.createVolume spacedDef, quietHost)])
        (storageRestart (run storageStep defaultInit [(.createVolume spacedDef, quietHost)])) ∧
      (storageFindVolume (storageRestart (run storageStep defaultInit
        [(.createVolume spacedDef, quietHost)])) (lit "vol")).map Volume.path =
          some (lit "/data/vol") := by
  refine ⟨fun same => ?_, by decide +kernel⟩
  have found := same.findVolume (lit "vol")
  revert found
  decide +kernel

end HwrunOs.Storage
