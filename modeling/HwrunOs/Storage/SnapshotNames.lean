import HwrunOs.Storage.Restart
import HwrunOs.Storage.Rollback
import HwrunOs.Storage.VolumeNames

/-!
# Which snapshot a name designates

Creating a snapshot asks whether its volume has one of that name; restoring and deleting search
the snapshots of all volumes and take the first whose id or name is the given string. A restart
reads the registry from the state file, in reverse order. The runs here mix calls and restarts.
-/

namespace HwrunOs.Storage

open HwrunOs.Bytes HwrunOs.Paths HwrunOs.Runs HwrunOs.Lookup

/-! ## Calls and restarts -/

/-- What happens to the plugin. -/
inductive StoreEvent where
  /-- A call of the protocol on a host. -/
  | call (action : Action) (host : Host)
  /-- `storage_impl_shutdown` and then `storage_impl_init`. -/
  | restart

/-- What `storage_load` reads: nothing where there is no state file. -/
def loadFile : Option CString → List Volume × List Snapshot
  | none => ([], [])
  | some text => storageLoad text

/-- A restart: the registry is what the state file holds. -/
def storeRestart (store : Store) : Store where
  ctx :=
    { storageInit store.ctx.cwd store.ctx.stateDir store.ctx.dirFits with
      volumes := (loadFile store.file).1
      snapshots := (loadFile store.file).2 }
  file := store.file

/-- Registry and state file after a call or a restart. -/
def storeEvent (store : Store) : StoreEvent → Store
  | .call action host => storeStep store (action, host)
  | .restart => storeRestart store

/-- An empty registry without a state file. -/
def storeInit (cwd stateDir : CString) (dirFits : stateDir.length < 240) : Store :=
  ⟨storageInit cwd stateDir dirFits, none⟩

/-- No string is the name or id of two snapshots. -/
def SingleSnapshots (snapshots : List Snapshot) : Prop :=
  ∀ nameOrId, ∀ first ∈ snapshots, ∀ second ∈ snapshots,
    first.answers nameOrId = true → second.answers nameOrId = true → first = second

/-- Every string designates at most one snapshot, and the same one after a restart. -/
structure SnapshotsKeyed (store : Store) : Prop where
  /-- At most one. -/
  single : SingleSnapshots store.ctx.snapshots
  /-- The same one. -/
  restarted : ∀ nameOrId, storageFindSnapshot (storeRestart store).ctx nameOrId =
    storageFindSnapshot store.ctx nameOrId

/-! ## The condition -/

/-- `storage_snapshot_create` registers the snapshot: it is admitted, the directory is copied and
the state file written. -/
structure TakesSnapshot (host : Host) (ctx : Ctx) (nameOrId snapshotName : CString)
    (target : Target) : Prop where
  /-- The first phase succeeds. -/
  admitted : snapshotAdmit (host.lstat ctx) ctx nameOrId snapshotName = .ok target
  /-- The copy succeeds. -/
  copied : host.copyRc = 0
  /-- There is memory for the record. -/
  alloc : host.alloc = true
  /-- The state file is written. -/
  written : storagePersist host ctx = 0

/-- A string that is no name and no id of a registered snapshot. -/
def UnusedKey (ctx : Ctx) (key : CString) : Prop :=
  ∀ snapshot ∈ ctx.snapshots, snapshot.answers key = false

instance (ctx : Ctx) (key : CString) : Decidable (UnusedKey ctx key) :=
  inferInstanceAs (Decidable (∀ snapshot ∈ ctx.snapshots, _))

/-- A new snapshot whose keys are unused in every volume and whose texts survive their line. -/
structure FreshSnapshot (host : Host) (ctx : Ctx) (snapshotName : CString) (target : Target) :
    Prop where
  /-- No snapshot has its name as name or id. -/
  name : UnusedKey ctx snapshotName
  /-- No snapshot has its id as name or id. -/
  id : UnusedKey ctx (storageGenId host.idBytes)
  /-- Its name ends in no blank. -/
  nameSolid : EndsSolid snapshotName
  /-- The name of its volume ends in no blank. -/
  volumeSolid : EndsSolid target.volName
  /-- The state directory holds no line feed. -/
  oneLine : newline ∉ ctx.stateDir

/-- A snapshot that is registered is fresh, and one that is taken out is taken out of the state
file too. -/
def KeepsKeys (store : Store) : StoreEvent → Prop
  | .call (.snapshotCreate nameOrId snapshotName) host =>
    ∀ target, TakesSnapshot host store.ctx nameOrId snapshotName target →
      FreshSnapshot host store.ctx snapshotName target
  | .call (.snapshotDelete snapshotName) host =>
    ∀ snapshot, DeletesSnapshot store.ctx snapshotName snapshot →
      storagePersist host store.ctx = 0
  | _ => True

/-! ## What a restart gives back -/

/-- A snapshot that a restart gives back as it is. -/
structure Snapshot.Kept (snapshot : Snapshot) : Prop where
  /-- Its fields take one line each. -/
  loadable : snapshot.Loadable
  /-- Its name ends in no blank. -/
  name : EndsSolid snapshot.name
  /-- The name of its volume ends in no blank. -/
  volume : EndsSolid snapshot.volume
  /-- Its path ends in no blank. -/
  path : EndsSolid snapshot.path

/-- A state file with these snapshots, in some order, and with any volumes. -/
def Holds (file : Option CString) (snapshots : List Snapshot) : Prop :=
  (file = none ∧ snapshots = []) ∨
    ∃ saved : Ctx, file = some (stateText saved) ∧ (∀ volume ∈ saved.volumes, volume.Loadable) ∧
      saved.snapshots.Perm snapshots

/-- A registry in which keys are unambiguous, and a state file with the same snapshots. -/
structure Store.Keyed (store : Store) : Prop where
  /-- The volumes are written line by line. -/
  volumes : ∀ volume ∈ store.ctx.volumes, volume.Loadable
  /-- The snapshots are given back. -/
  snapshots : ∀ snapshot ∈ store.ctx.snapshots, snapshot.Kept
  /-- No snapshot is listed twice. -/
  distinct : store.ctx.snapshots.Nodup
  /-- No string is the name or id of two of them. -/
  single : SingleSnapshots store.ctx.snapshots
  /-- The state file has them all. -/
  file : Holds store.file store.ctx.snapshots

/-- The blanks at the end of a text go, and it stays a text of a record. -/
theorem IsField.trimEnd {cap : Nat} {text : CString} (valid : IsField cap text)
    (filled : trimEnd text ≠ []) : IsField cap (trimEnd text) :=
  ⟨filled, Nat.lt_of_le_of_lt (trimEnd_length text) valid.fits,
    fun feed => valid.oneLine ((List.rdropWhile_prefix _ _).mem feed)⟩

/-- A volume that is read back can be written again. -/
theorem Volume.Loadable.reloaded {volume : Volume} (loadable : volume.Loadable)
    (named : volume.reloaded.named = true) : volume.reloaded.Loadable := by
  simp only [Volume.named, Bool.and_eq_true, Bool.not_eq_true', List.isEmpty_eq_false_iff] at named
  refine ⟨loadable.id, loadable.name.trimEnd named.1.2, loadable.path.trimEnd named.2, ?_,
    loadable.readonly⟩
  refine ⟨fun feed => loadable.description.1 ((List.rdropWhile_prefix _ _).mem feed), ?_⟩
  exact Nat.lt_of_le_of_lt (trimEnd_length _) loadable.description.2

/-- Snapshots that are kept are read back as they are. -/
theorem reloaded_kept {snapshots : List Snapshot}
    (kept : ∀ snapshot ∈ snapshots, snapshot.Kept) :
    (snapshots.map Snapshot.reloaded).filter Snapshot.named = snapshots := by
  have same : snapshots.map Snapshot.reloaded = snapshots.map id :=
    List.map_congr_left fun snapshot listed =>
      have record := kept snapshot listed
      snapshot_reloaded_eq record.name record.volume record.path
  rw [same, List.map_id, List.filter_eq_self]
  exact fun snapshot listed => (kept snapshot listed).loadable.named

/-- A state file with snapshots that are kept gives them all back. -/
theorem Holds.load {file : Option CString} {snapshots : List Snapshot}
    (holds : Holds file snapshots) (kept : ∀ snapshot ∈ snapshots, snapshot.Kept) :
    (∀ volume ∈ (loadFile file).1, volume.Loadable) ∧ (loadFile file).2.Perm snapshots := by
  rcases holds with ⟨rfl, rfl⟩ | ⟨saved, rfl, volumes, perm⟩
  · exact ⟨by simp [loadFile], .refl _⟩
  · have savedKept : ∀ snapshot ∈ saved.snapshots, snapshot.Kept :=
      fun snapshot listed => kept snapshot (perm.mem_iff.mp listed)
    have loaded := storageLoad_loadable volumes
      fun snapshot listed => (savedKept snapshot listed).loadable
    rw [reloaded_kept savedKept] at loaded
    rw [loadFile, loaded]
    refine ⟨?_, (List.reverse_perm _).trans perm⟩
    intro volume listed
    obtain ⟨mapped, named⟩ := List.mem_filter.mp (List.mem_reverse.mp listed)
    obtain ⟨source, member, rfl⟩ := List.mem_map.mp mapped
    exact (volumes source member).reloaded named

/-- Another order of the snapshots is as unambiguous. -/
theorem SingleSnapshots.perm {snapshots other : List Snapshot} (single : SingleSnapshots snapshots)
    (perm : other.Perm snapshots) : SingleSnapshots other :=
  fun nameOrId first left second right =>
    single nameOrId first (perm.mem_iff.mp left) second (perm.mem_iff.mp right)

/-- In a keyed store every string designates one snapshot, before and after a restart. -/
theorem Store.Keyed.snapshotsKeyed {store : Store} (keyed : store.Keyed) :
    SnapshotsKeyed store := by
  refine ⟨keyed.single, ?_⟩
  intro nameOrId
  have perm := (keyed.file.load keyed.snapshots).2
  exact (find?_eq_of_perm perm.symm (keyed.single nameOrId)).symm

/-- A restart keeps a store keyed. -/
theorem Store.Keyed.restart {store : Store} (keyed : store.Keyed) :
    (storeRestart store).Keyed := by
  obtain ⟨volumes, perm⟩ := keyed.file.load keyed.snapshots
  refine ⟨volumes, fun snapshot listed => keyed.snapshots snapshot (perm.mem_iff.mp listed),
    perm.nodup_iff.mpr keyed.distinct, keyed.single.perm perm, ?_⟩
  rcases keyed.file with ⟨missing, empty⟩ | ⟨saved, text, loadable, same⟩
  · refine .inl ⟨missing, ?_⟩
    rw [empty] at perm
    exact perm.eq_nil
  · exact .inr ⟨saved, text, loadable, same.trans perm.symm⟩

/-! ## What a call does -/

/-- A call writes the registry it leaves to the state file, or leaves the file alone. -/
theorem storeStep_file (store : Store) (call : Action × Host) :
    (storeStep store call).file = store.file ∨
      (storeStep store call).file = some (stateText (storeStep store call).ctx) := by
  obtain ⟨action, host⟩ := call
  have written (outcome : Outcome) :
      (if outcome.rc = 0 then some (stateText outcome.ctx) else store.file) = store.file ∨
        (if outcome.rc = 0 then some (stateText outcome.ctx) else store.file) =
          some (stateText outcome.ctx) := by
    by_cases fine : outcome.rc = 0
    · exact .inr (if_pos fine)
    · exact .inl (if_neg fine)
  cases action with
  | createVolume volumeDef => exact written _
  | deleteVolume nameOrId => exact written _
  | unregisterVolume nameOrId => exact written _
  | snapshotCreate nameOrId snapshotName => exact written _
  | snapshotRestore snapshotName targetVolume => exact .inl rfl
  | snapshotDelete snapshotName =>
    rcases snapshotForget_cases host store.ctx snapshotName with
      ⟨snapshot, -, forgotten⟩ | ⟨-, rc, refused⟩
    · have left : (storeStep store (.snapshotDelete snapshotName, host)).ctx =
          { store.ctx with
            snapshots := store.ctx.snapshots.eraseP (Snapshot.answers snapshotName) } := by
        simp only [storeStep, perform, storageSnapshotDelete, forgotten]
        split <;> rfl
      rw [left]
      simp only [storeStep, fileAfter, forgotten, persistFile]
      split
      · exact .inr rfl
      · exact .inl rfl
    · refine .inl ?_
      simp only [storeStep, fileAfter, refused]

/-- The volumes of a registry stay loadable. -/
theorem Change.volumesLoadable {ctx next : Ctx} {backend : Option CString}
    (change : Change ctx backend next) (loadable : ∀ volume ∈ ctx.volumes, volume.Loadable) :
    ∀ volume ∈ next.volumes, volume.Loadable := by
  cases change with
  | same => exact loadable
  | created host name path volumeDef label accepted free =>
    intro volume listed
    rcases List.mem_cons.mp listed with rfl | old
    · exact (newVolume_valid host volumeDef label accepted).loadable
    · exact loadable volume old
  | dropped nameOrId =>
    exact fun volume listed => loadable volume (List.mem_of_mem_eraseP listed)
  | taken host volume snapshotName label listed free => exact loadable
  | forgotten snapshotName => exact loadable

/-- A call that leaves the snapshots alone keeps a store keyed. -/
theorem Store.Keyed.sameSnapshots {store : Store} (keyed : store.Keyed) {call : Action × Host}
    (same : (storageStep store.ctx call).snapshots = store.ctx.snapshots) :
    (storeStep store call).Keyed := by
  have volumes := (storageStep_change store.ctx call).volumesLoadable keyed.volumes
  have same : (storeStep store call).ctx.snapshots = store.ctx.snapshots := same
  refine ⟨volumes, ?_, ?_, ?_, ?_⟩
  · rw [same]
    exact keyed.snapshots
  · rw [same]
    exact keyed.distinct
  · rw [same]
    exact keyed.single
  · rw [same]
    rcases storeStep_file store call with kept | written
    · rw [kept]
      exact keyed.file
    · exact .inr ⟨_, written, volumes, by rw [same]⟩

/-! ## Creating a snapshot -/

/-- `storage_snapshot_create` registers a snapshot of the volume that it found, or leaves the
registry alone. -/
theorem snapshotCreate_takes (host : Host) {ctx : Ctx}
    (loadable : ∀ volume ∈ ctx.volumes, volume.Loadable) (nameOrId snapshotName : CString) :
    (∃ volume ∈ ctx.volumes, ∃ target, TakesSnapshot host ctx nameOrId snapshotName target ∧
      IsLabel snapshotName ∧ target.volName = volume.name ∧
      target.snapPath = snapshotPath ctx volume.name snapshotName ∧
      storageFindSnapshotIn ctx volume.name snapshotName = none ∧
      storageSnapshotCreate host ctx nameOrId snapshotName =
        ⟨{ ctx with snapshots := newSnapshot host target snapshotName :: ctx.snapshots }, 0, []⟩) ∨
    ((∀ target, ¬ TakesSnapshot host ctx nameOrId snapshotName target) ∧
      (storageSnapshotCreate host ctx nameOrId snapshotName).ctx = ctx) := by
  unfold storageSnapshotCreate
  split
  · rename_i rc refused
    refine .inr ⟨?_, rfl⟩
    rintro target ⟨admitted, -, -, -⟩
    rw [refused] at admitted
    cases admitted
  · rename_i target admitted
    have only {other : Target} (takes : TakesSnapshot host ctx nameOrId snapshotName other) :
        host.copyRc = 0 ∧ host.alloc = true ∧ storagePersist host ctx = 0 :=
      ⟨takes.copied, takes.alloc, takes.written⟩
    split
    · rename_i failed
      exact .inr ⟨fun other takes => failed (only takes).1, rfl⟩
    · rename_i copied
      split
      · rename_i full
        refine .inr ⟨fun other takes => ?_, rfl⟩
        simp [(only takes).2.1] at full
      · rename_i alloc
        obtain ⟨label, checked⟩ := snapshotAdmit_ok admitted
        obtain ⟨volume, found, free, -, shape⟩ := snapshotCheck_ok checked
        have listed := List.mem_of_find?_eq_some found
        have fits : snprintf 128 volume.name = volume.name :=
          snprintf_eq (loadable volume listed).name.fits
        have named : target.volName = volume.name := by rw [shape, fits]
        have known : ¬ (storageFindVolume ctx target.volName).isNone := by
          rw [named, Option.isNone_iff_eq_none, storageFindVolume, List.find?_eq_none]
          exact fun absent => absent volume listed (by simp [Volume.answers])
        have unused : ¬ (storageFindSnapshotIn ctx target.volName snapshotName).isSome := by
          rw [named, free]
          simp
        by_cases written : storagePersist host ctx = 0
        · refine .inl ⟨volume, listed, target, ?_, storageValidLabel_ok label, named,
            by rw [shape], free, ?_⟩
          · exact ⟨admitted, not_not.mp copied, by simpa using alloc, written⟩
          · have registered : snapshotRegister host ctx target snapshotName =
                ({ ctx with snapshots := newSnapshot host target snapshotName :: ctx.snapshots },
                  0) := by
              rw [snapshotRegister, if_neg known, if_neg unused]
              exact if_neg (not_not.mpr written)
            rw [registered]
            rfl
        · refine .inr ⟨fun other takes => written (only takes).2.2, ?_⟩
          have refused : snapshotRegister host ctx target snapshotName =
              (ctx, storagePersist host ctx) := by
            rw [snapshotRegister, if_neg known, if_neg unused]
            exact if_pos written
          rw [refused]
          dsimp only
          rw [if_pos written]

/-- A new snapshot answers to its name and to its id. -/
theorem newSnapshot_answers {host : Host} {target : Target} {snapshotName key : CString}
    (fits : snapshotName.length < 128) :
    (newSnapshot host target snapshotName).answers key = true ↔
      storageGenId host.idBytes = key ∨ snapshotName = key := by
  rw [Snapshot.answers, newSnapshot, snprintf_eq fits]
  simp

/-- A fresh snapshot leaves no string for two snapshots. -/
theorem SingleSnapshots.fresh {ctx : Ctx} (single : SingleSnapshots ctx.snapshots) {host : Host}
    {target : Target} {snapshotName : CString} (fits : snapshotName.length < 128)
    (name : UnusedKey ctx snapshotName) (id : UnusedKey ctx (storageGenId host.idBytes)) :
    SingleSnapshots (newSnapshot host target snapshotName :: ctx.snapshots) := by
  have apart (key : CString) (old : Snapshot) (listed : old ∈ ctx.snapshots)
      (answers : old.answers key = true) :
      ¬ (newSnapshot host target snapshotName).answers key = true := by
    rw [newSnapshot_answers fits]
    rintro (rfl | rfl)
    · simp [id old listed] at answers
    · simp [name old listed] at answers
  intro key first left second right one two
  rcases List.mem_cons.mp left with rfl | left
  · rcases List.mem_cons.mp right with rfl | right
    · rfl
    · exact absurd one (apart key second right two)
  · rcases List.mem_cons.mp right with rfl | right
    · exact absurd two (apart key first left one)
    · exact single key first left second right one two

/-- A new snapshot whose keys are unambiguous shares none with an older one. -/
theorem SingleSnapshots.unused {ctx : Ctx} {host : Host} {target : Target}
    {snapshotName : CString} (fits : snapshotName.length < 128)
    (new : newSnapshot host target snapshotName ∉ ctx.snapshots)
    (single : SingleSnapshots (newSnapshot host target snapshotName :: ctx.snapshots)) :
    UnusedKey ctx snapshotName ∧ UnusedKey ctx (storageGenId host.idBytes) := by
  have apart (key : CString)
      (answers : (newSnapshot host target snapshotName).answers key = true) :
      UnusedKey ctx key := by
    intro old listed
    rw [Bool.eq_false_iff]
    intro also
    have same := single key _ List.mem_cons_self old (List.mem_cons_of_mem _ listed) answers also
    exact new (same ▸ listed)
  exact ⟨apart _ ((newSnapshot_answers fits).mpr (.inr rfl)),
    apart _ ((newSnapshot_answers fits).mpr (.inl rfl))⟩

/-- A new snapshot for a free name is not registered yet. -/
theorem newSnapshot_notMem (host : Host) {ctx : Ctx} {target : Target}
    {volumeName snapshotName : CString} (volume : volumeName.length < 128)
    (name : snapshotName.length < 128) (named : target.volName = volumeName)
    (free : storageFindSnapshotIn ctx volumeName snapshotName = none) :
    newSnapshot host target snapshotName ∉ ctx.snapshots := by
  intro listed
  have missed := List.find?_eq_none.mp free _ listed
  rw [newSnapshot, named, snprintf_eq volume, snprintf_eq name] at missed
  simp at missed

/-- A path without a line feed has a state directory without one. -/
theorem stateDir_oneLine {ctx : Ctx} {volumeName snapshotName : CString}
    (volume : IsField 128 volumeName) (name : IsField 128 snapshotName) :
    newline ∉ snapshotPath ctx volumeName snapshotName ↔ newline ∉ ctx.stateDir := by
  rw [snapshotPath_eq ctx volume.fits name.fits]
  have root : newline ∉ lit "snapshots" := by decide
  have slash : newline ≠ 47 := by decide
  simp [volume.oneLine, name.oneLine, root, slash]

section Taken

variable {store : Store} {host : Host} {nameOrId snapshotName : CString} {target : Target}
  {volume : Volume}

/-- The record of the snapshot that a call takes. -/
theorem taken_eq (host : Host) (loadable : volume.Loadable) (label : IsLabel snapshotName)
    (named : target.volName = volume.name)
    (path : target.snapPath = snapshotPath store.ctx volume.name snapshotName) :
    newSnapshot host target snapshotName =
      ⟨storageGenId host.idBytes, snapshotName, volume.name,
        snapshotPath store.ctx volume.name snapshotName, host.time, 1⟩ := by
  rw [newSnapshot_eq host (by rw [named]; exact loadable.name.fits) label.fits
    (by rw [path, named]), named, path]

/-- The snapshot that a call takes is written line by line. -/
theorem taken_loadable (host : Host) (loadable : volume.Loadable) (label : IsLabel snapshotName)
    (named : target.volName = volume.name)
    (path : target.snapPath = snapshotPath store.ctx volume.name snapshotName)
    (oneLine : newline ∉ store.ctx.stateDir) :
    (newSnapshot host target snapshotName).Loadable := by
  rw [taken_eq host loadable label named path]
  refine ⟨storageGenId_isId host.idBytes, label.isField, loadable.name, ⟨?_, ?_, ?_⟩, rfl⟩
  · rw [snapshotPath_eq store.ctx loadable.name.fits label.fits]
    simp
  · exact snprintf_length _ (by decide)
  · exact (stateDir_oneLine loadable.name label.isField).mpr oneLine

/-- A fresh snapshot keeps a store keyed. -/
theorem Store.Keyed.take (keyed : store.Keyed) (listed : volume ∈ store.ctx.volumes)
    (label : IsLabel snapshotName) (named : target.volName = volume.name)
    (path : target.snapPath = snapshotPath store.ctx volume.name snapshotName)
    (free : storageFindSnapshotIn store.ctx volume.name snapshotName = none)
    (fresh : FreshSnapshot host store.ctx snapshotName target) {next : Ctx}
    (added : next = { store.ctx with
      snapshots := newSnapshot host target snapshotName :: store.ctx.snapshots }) :
    Store.Keyed ⟨next, some (stateText next)⟩ := by
  subst added
  have loadable := keyed.volumes volume listed
  have record := taken_eq host loadable label named path
  have kept : (newSnapshot host target snapshotName).Kept := by
    refine ⟨taken_loadable host loadable label named path fresh.oneLine, ?_, ?_, ?_⟩
    · rw [record]
      exact fresh.nameSolid
    · rw [record]
      exact named ▸ fresh.volumeSolid
    · rw [record]
      exact endsSolid_snapshotPath store.ctx loadable.name label.isField fresh.nameSolid
  refine ⟨keyed.volumes, ?_, ?_, ?_, .inr ⟨_, rfl, keyed.volumes, .refl _⟩⟩
  · intro snapshot member
    rcases List.mem_cons.mp member with rfl | old
    · exact kept
    · exact keyed.snapshots snapshot old
  · exact List.nodup_cons.mpr
      ⟨newSnapshot_notMem host loadable.name.fits label.fits named free, keyed.distinct⟩
  · exact keyed.single.fresh label.fits fresh.name fresh.id

/-- A snapshot that is taken while every string stays unambiguous is fresh. -/
theorem Store.Keyed.fresh (keyed : store.Keyed) (listed : volume ∈ store.ctx.volumes)
    (label : IsLabel snapshotName) (named : target.volName = volume.name)
    (path : target.snapPath = snapshotPath store.ctx volume.name snapshotName)
    (free : storageFindSnapshotIn store.ctx volume.name snapshotName = none) {next : Ctx}
    (added : next = { store.ctx with
      snapshots := newSnapshot host target snapshotName :: store.ctx.snapshots })
    (good : SnapshotsKeyed ⟨next, some (stateText next)⟩) :
    FreshSnapshot host store.ctx snapshotName target := by
  subst added
  have loadable := keyed.volumes volume listed
  have record := taken_eq host loadable label named path
  have new := newSnapshot_notMem host loadable.name.fits label.fits named free
  obtain ⟨name, id⟩ := good.single.unused label.fits new
  have answers : (newSnapshot host target snapshotName).answers snapshotName = true :=
    (newSnapshot_answers label.fits).mpr (.inr rfl)
  -- The new snapshot is the first that answers, so the restart must find it too.
  have found := good.restarted snapshotName
  rw [storageFindSnapshot, storageFindSnapshot, List.find?_cons_of_pos answers] at found
  have back := List.mem_of_find?_eq_some found
  have oneLine : newline ∉ store.ctx.stateDir := by
    have line := storageLoad_oneLine _ _ back
    rw [record] at line
    exact (stateDir_oneLine loadable.name label.isField).mp line
  have written := taken_loadable host loadable label named path oneLine
  have lines : ∀ snapshot ∈ newSnapshot host target snapshotName :: store.ctx.snapshots,
      snapshot.Loadable := by
    intro snapshot member
    rcases List.mem_cons.mp member with rfl | old
    · exact written
    · exact (keyed.snapshots snapshot old).loadable
  have loaded := @storageLoad_loadable { store.ctx with
    snapshots := newSnapshot host target snapshotName :: store.ctx.snapshots } keyed.volumes lines
  change newSnapshot host target snapshotName ∈ (storageLoad _).2 at back
  rw [loaded] at back
  obtain ⟨source, -, same⟩ :=
    List.mem_map.mp (List.mem_of_mem_filter (List.mem_reverse.mp back))
  rw [record] at same
  refine ⟨name, id, ?_, ?_, oneLine⟩
  · rw [show snapshotName = trimEnd source.name from (congrArg Snapshot.name same).symm]
    exact endsSolid_trimEnd _
  · rw [named, show volume.name = trimEnd source.volume from
      (congrArg Snapshot.volume same).symm]
    exact endsSolid_trimEnd _

end Taken

/-! ## Deleting a snapshot -/

section Deleted

variable {store : Store} {host : Host} {snapshotName : CString} {snapshot : Snapshot}

/-- Deleting a snapshot takes out the record that was found and writes the state file when it
can. -/
theorem snapshotDelete_takes (found : DeletesSnapshot store.ctx snapshotName snapshot) :
    storeStep store (.snapshotDelete snapshotName, host) =
      { ctx := { store.ctx with
          snapshots := store.ctx.snapshots.eraseP (Snapshot.answers snapshotName) }
        file := persistFile host
          { store.ctx with
            snapshots := store.ctx.snapshots.eraseP (Snapshot.answers snapshotName) }
          store.file } := by
  rcases snapshotForget_cases host store.ctx snapshotName with
    ⟨other, -, forgotten⟩ | ⟨absent, -⟩
  · simp only [storeStep, perform, storageSnapshotDelete, fileAfter, forgotten]
    split <;> rfl
  · exact absurd found (absent snapshot)

/-- Deleting nothing leaves the snapshots alone. -/
theorem snapshotDelete_same
    (absent : ∀ snapshot, ¬ DeletesSnapshot store.ctx snapshotName snapshot) :
    (storageStep store.ctx (.snapshotDelete snapshotName, host)).snapshots =
      store.ctx.snapshots := by
  rcases snapshotForget_cases host store.ctx snapshotName with
    ⟨other, found, -⟩ | ⟨-, rc, refused⟩
  · exact absurd found (absent other)
  · simp only [storageStep, perform, storageSnapshotDelete, refused]
    rfl

/-- A snapshot that goes from the registry and the state file leaves a store keyed. -/
theorem Store.Keyed.delete (keyed : store.Keyed)
    (found : DeletesSnapshot store.ctx snapshotName snapshot)
    (written : storagePersist host store.ctx = 0) :
    (storeStep store (.snapshotDelete snapshotName, host)).Keyed := by
  have written : storagePersist host { store.ctx with
      snapshots := store.ctx.snapshots.eraseP (Snapshot.answers snapshotName) } = 0 := written
  rw [snapshotDelete_takes found, persistFile, if_pos written]
  have sub : (store.ctx.snapshots.eraseP (Snapshot.answers snapshotName)).Sublist
      store.ctx.snapshots := List.eraseP_sublist
  refine ⟨keyed.volumes, fun other listed => keyed.snapshots other (sub.mem listed),
    keyed.distinct.sublist sub, ?_, .inr ⟨_, rfl, keyed.volumes, .refl _⟩⟩
  exact fun key first left second right =>
    keyed.single key first (sub.mem left) second (sub.mem right)

/-- A snapshot that stays in the state file comes back with a restart. -/
theorem Store.Keyed.resurrected (keyed : store.Keyed)
    (found : DeletesSnapshot store.ctx snapshotName snapshot)
    (failed : storagePersist host store.ctx ≠ 0) :
    ¬ SnapshotsKeyed (storeStep store (.snapshotDelete snapshotName, host)) := by
  have failed : ¬ storagePersist host { store.ctx with
      snapshots := store.ctx.snapshots.eraseP (Snapshot.answers snapshotName) } = 0 := failed
  rw [snapshotDelete_takes found, persistFile, if_neg failed]
  intro good
  have listed := List.mem_of_find?_eq_some found.2.2
  have answers := List.find?_some found.2.2
  have gone : (store.ctx.snapshots.eraseP (Snapshot.answers snapshotName)).find?
      (Snapshot.answers snapshotName) = none := by
    rw [List.find?_eq_none]
    intro other left also
    have same := keyed.single snapshotName other (List.mem_of_mem_eraseP left) snapshot listed
      also answers
    have distinct : (store.ctx.snapshots.map id).Nodup := by
      rw [List.map_id]
      exact keyed.distinct
    exact key_ne_of_mem_eraseP distinct found.2.2 left same
  have back := (keyed.file.load keyed.snapshots).2.mem_iff.mpr listed
  have still := good.restarted snapshotName
  rw [storageFindSnapshot, storageFindSnapshot, gone, List.find?_eq_none] at still
  exact still snapshot back answers

end Deleted

/-! ## Every run -/

/-- Calls and restarts that meet the condition keep a store keyed. -/
theorem Store.Keyed.event {store : Store} (keyed : store.Keyed) {event : StoreEvent}
    (keeps : KeepsKeys store event) : (storeEvent store event).Keyed := by
  cases event with
  | restart => exact keyed.restart
  | call action host =>
    cases action with
    | createVolume volumeDef =>
      exact keyed.sameSnapshots (storageCreateVolume_snapshots host _ volumeDef).2
    | deleteVolume nameOrId =>
      exact keyed.sameSnapshots (storageDeleteVolume_snapshots host _ nameOrId)
    | unregisterVolume nameOrId =>
      exact keyed.sameSnapshots (storageUnregisterVolume_snapshots host _ nameOrId).2
    | snapshotRestore snapshotName targetVolume =>
      refine keyed.sameSnapshots ?_
      rw [storageStep, perform, storageSnapshotRestore_ctx]
    | snapshotCreate nameOrId snapshotName =>
      rcases snapshotCreate_takes host keyed.volumes nameOrId snapshotName with
        ⟨volume, listed, target, takes, label, named, path, free, created⟩ | ⟨-, same⟩
      · have next := keyed.take listed label named path free (keeps target takes) rfl
        simpa only [storeEvent, storeStep, perform, fileAfter, created, if_true] using next
      · refine keyed.sameSnapshots ?_
        rw [storageStep, perform, same]
    | snapshotDelete snapshotName =>
      by_cases found : ∃ snapshot, DeletesSnapshot store.ctx snapshotName snapshot
      · obtain ⟨snapshot, found⟩ := found
        exact keyed.delete found (keeps snapshot found)
      · rw [not_exists] at found
        exact keyed.sameSnapshots (snapshotDelete_same found)

/-- Any other call leaves a string that does not designate one snapshot. -/
theorem Store.Keyed.broken {store : Store} (keyed : store.Keyed) {event : StoreEvent}
    (misses : ¬ KeepsKeys store event) : ¬ SnapshotsKeyed (storeEvent store event) := by
  cases event with
  | restart => exact absurd trivial misses
  | call action host =>
    cases action with
    | createVolume volumeDef => exact absurd trivial misses
    | deleteVolume nameOrId => exact absurd trivial misses
    | unregisterVolume nameOrId => exact absurd trivial misses
    | snapshotRestore snapshotName targetVolume => exact absurd trivial misses
    | snapshotCreate nameOrId snapshotName =>
      intro good
      rcases snapshotCreate_takes host keyed.volumes nameOrId snapshotName with
        ⟨volume, listed, target, takes, label, named, path, free, created⟩ | ⟨never, -⟩
      · simp only [storeEvent, storeStep, perform, fileAfter, created, if_true] at good
        have fresh := keyed.fresh listed label named path free rfl good
        refine misses fun other also => ?_
        obtain rfl : target = other := by
          have same := takes.admitted.symm.trans also.admitted
          injection same
        exact fresh
      · exact misses fun target takes => absurd takes (never target)
    | snapshotDelete snapshotName =>
      simp only [KeepsKeys, not_forall] at misses
      obtain ⟨snapshot, found, failed⟩ := misses
      exact keyed.resurrected found failed

/-- An empty store is keyed. -/
theorem storeInit_keyed (cwd stateDir : CString) (dirFits : stateDir.length < 240) :
    (storeInit cwd stateDir dirFits).Keyed :=
  ⟨by simp [storeInit, storageInit], by simp [storeInit, storageInit], List.nodup_nil,
    by simp [SingleSnapshots, storeInit, storageInit], .inl ⟨rfl, rfl⟩⟩

/-- In a run of calls and restarts every string designates at most one snapshot, and the same one
after a restart, in every state exactly when every snapshot that is registered has keys that no
other snapshot has and texts that survive their line, and every one that is taken out is taken
out of the state file too. -/
theorem snapshots_keyed_iff (cwd stateDir : CString) (dirFits : stateDir.length < 240)
    (events : List StoreEvent) :
    AllStates storeEvent SnapshotsKeyed (storeInit cwd stateDir dirFits) events ↔
      AllSteps storeEvent KeepsKeys (storeInit cwd stateDir dirFits) events :=
  have usually : AllSteps storeEvent (fun _ _ => True) (storeInit cwd stateDir dirFits) events :=
    allSteps_of_forall (fun _ _ => trivial) _ events
  allStates_iff_allSteps (fun _ keyed => keyed.snapshotsKeyed)
    (fun _ _ keyed keeps => keyed.event keeps) (fun _ _ keyed _ misses => keyed.broken misses)
    (storeInit_keyed cwd stateDir dirFits) usually

/-- A host with both directories whose next id has the given digits. -/
def twoDirsHost (byte : UInt8) : Host :=
  { quietHost with
    objects := [⟨resolve (lit "/") (lit "/data"), true⟩, ⟨resolve (lit "/") (lit "/home"), true⟩]
    idBytes := fun _ => byte }

/-- A snapshot `daily` of the only volume has its name before a restart and after it. -/
theorem snapshots_keyed_daily :
    AllStates storeEvent SnapshotsKeyed (storeInit (lit "/") (lit "/var/lib/hwrun") (by decide))
      [.call (.createVolume dataDef) (twoDirsHost 1),
        .call (.snapshotCreate (lit "data") (lit "daily")) (twoDirsHost 3), .restart] := by
  apply (snapshots_keyed_iff (lit "/") (lit "/var/lib/hwrun") (by decide) _).mpr
  refine ⟨trivial, fun target takes => ?_, trivial, trivial⟩
  have volume : ((snapshotAdmit ((twoDirsHost 3).lstat
      (storeEvent (storeInit (lit "/") (lit "/var/lib/hwrun") (by decide))
        (.call (.createVolume dataDef) (twoDirsHost 1))).ctx)
      (storeEvent (storeInit (lit "/") (lit "/var/lib/hwrun") (by decide))
        (.call (.createVolume dataDef) (twoDirsHost 1))).ctx (lit "data")
          (lit "daily")).toOption.map Target.volName) = some (lit "data") := by
    decide +kernel
  rw [takes.admitted] at volume
  constructor
  · decide +kernel
  · decide +kernel
  · decide +kernel
  · rw [Option.some.inj volume]
    decide +kernel
  · decide +kernel

/-- A snapshot `daily` is taken of each of two volumes. -/
def twoDailies : List StoreEvent :=
  [.call (.createVolume dataDef) (twoDirsHost 1), .call (.createVolume homeDef) (twoDirsHost 2),
    .call (.snapshotCreate (lit "data") (lit "daily")) (twoDirsHost 3),
    .call (.snapshotCreate (lit "home") (lit "daily")) (twoDirsHost 4)]

/-- Before a restart the name designates the snapshot of the second volume, after it that of the
first. -/
theorem daily_changes :
    ¬ AllStates storeEvent SnapshotsKeyed
        (storeInit (lit "/") (lit "/var/lib/hwrun") (by decide)) twoDailies ∧
      (storageFindSnapshot (run storeEvent (storeInit (lit "/") (lit "/var/lib/hwrun") (by decide))
        twoDailies).ctx (lit "daily")).map Snapshot.volume = some (lit "home") ∧
      (storageFindSnapshot (storeRestart (run storeEvent
        (storeInit (lit "/") (lit "/var/lib/hwrun") (by decide)) twoDailies)).ctx
          (lit "daily")).map Snapshot.volume = some (lit "data") := by
  have before : (storageFindSnapshot (run storeEvent
      (storeInit (lit "/") (lit "/var/lib/hwrun") (by decide)) twoDailies).ctx
        (lit "daily")).map Snapshot.volume = some (lit "home") := by
    decide +kernel
  have after : (storageFindSnapshot (storeRestart (run storeEvent
      (storeInit (lit "/") (lit "/var/lib/hwrun") (by decide)) twoDailies)).ctx
        (lit "daily")).map Snapshot.volume = some (lit "data") := by
    decide +kernel
  refine ⟨fun good => ?_, before, after⟩
  have same := good.last.restarted (lit "daily")
  rw [same, before] at after
  exact absurd after (by decide)

end HwrunOs.Storage
