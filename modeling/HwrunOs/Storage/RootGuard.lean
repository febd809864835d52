import HwrunOs.Storage.SnapshotNames

/-!
# Whether a deletion can remove the root

`storage_delete_volume` refuses a volume whose path is the text of the root and removes every other
directory with all it holds. The root has more texts: with several slashes, with components that
lead back to it, with symbolic links. `storage_valid_path` accepts all of them.
-/

namespace HwrunOs.Storage

open HwrunOs.Bytes HwrunOs.Paths HwrunOs.Runs

/-- What happens to the plugin, with the symbolic links that the file system has at the time. -/
abbrev LinkedEvent := StoreEvent × Links

/-- Registry and state file after an event. -/
def linkedStep (store : Store) (event : LinkedEvent) : Store := storeEvent store event.1

/-- A deletion does not remove the root with all it holds. -/
def SparesRoot (store : Store) : LinkedEvent → Prop
  | (.call (.deleteVolume nameOrId) host, links) =>
    ∀ path, .tree path ∈ (storageDeleteVolume host store.ctx nameOrId).removals →
      locate links store.ctx.cwd path ≠ some []
  | _ => True

/-- A volume that is to be deleted and whose directory is the root has the text of the root as its
path, unless it is readonly. -/
def SpellsRoot (store : Store) : LinkedEvent → Prop
  | (.call (.deleteVolume nameOrId) host, links) =>
    ∀ volume, nameOrId ≠ [] → storageFindVolume store.ctx nameOrId = some volume →
      volume.readonly = 0 → host.lstat store.ctx volume.path = .directory →
      locate links store.ctx.cwd volume.path = some [] → volume.path = lit "/"
  | _ => True

/-- What a deletion removes with all it holds: the directory of a volume that is not readonly, when
its path is not the text of the root. -/
theorem storageDeleteVolume_tree {host : Host} {ctx : Ctx} (ready : ctx.initialized = true)
    {nameOrId path : CString} :
    .tree path ∈ (storageDeleteVolume host ctx nameOrId).removals ↔
      nameOrId ≠ [] ∧ ∃ volume, storageFindVolume ctx nameOrId = some volume ∧
        volume.readonly = 0 ∧ volume.path ≠ lit "/" ∧
        host.lstat ctx volume.path = .directory ∧ volume.path = path := by
  unfold storageDeleteVolume
  rw [ready]
  by_cases named : nameOrId = []
  · simp [refuse, named]
  rw [if_neg named, if_neg (by decide)]
  cases found : storageFindVolume ctx nameOrId with
  | none => simp [refuse]
  | some volume =>
    dsimp only
    by_cases writable : volume.readonly = 0
    · rw [if_neg (not_not.mpr writable)]
      by_cases root : volume.path = lit "/"
      · simp [refuse, root]
      · rw [if_neg root]
        cases kind : host.lstat ctx volume.path with
        | other => simp [refuse, kind]
        | missing => simp [dropVolume, kind]
        | failed rc => simp [dropVolume, kind]
        | directory =>
          dsimp only
          split
          · simp [named, writable, root, kind, eq_comm]
          · simp [dropVolume, named, writable, root, kind, eq_comm]
    · simp [refuse, writable]

/-- A deletion spares the root exactly when it removes nothing spelled otherwise that is the
root. -/
theorem sparesRoot_iff {store : Store} (ready : store.ctx.initialized = true)
    (event : LinkedEvent) : SparesRoot store event ↔ SpellsRoot store event := by
  obtain ⟨⟨action, host⟩ | _, links⟩ := event
  · cases action with
    | deleteVolume nameOrId =>
      constructor
      · intro spares volume named found writable kind root
        by_contra other
        have removed : .tree volume.path ∈
            (storageDeleteVolume host store.ctx nameOrId).removals :=
          (storageDeleteVolume_tree ready).mpr
            ⟨named, volume, found, writable, other, kind, rfl⟩
        exact spares volume.path removed root
      · intro spells path removed root
        obtain ⟨named, volume, found, writable, other, kind, rfl⟩ :=
          (storageDeleteVolume_tree ready).mp removed
        exact other (spells volume named found writable kind root)
    | _ => exact Iff.rfl
  · exact Iff.rfl

/-- The plugin stays initialised. -/
theorem linkedStep_initialized {store : Store} (ready : store.ctx.initialized = true)
    (event : LinkedEvent) : (linkedStep store event).ctx.initialized = true := by
  obtain ⟨⟨action, host⟩ | _, links⟩ := event
  · show (storageStep store.ctx (action, host)).initialized = true
    have change := storageStep_change store.ctx (action, host)
    generalize storageStep store.ctx (action, host) = next at change
    generalize Action.backend _ = backend at change
    cases change <;> exact ready
  · rfl

/-- No deletion removes the root exactly when no volume that is the root and is spelled otherwise
is deleted. -/
theorem root_spared_iff (cwd stateDir : CString) (dirFits : stateDir.length < 240)
    (events : List LinkedEvent) :
    AllSteps linkedStep SparesRoot (storeInit cwd stateDir dirFits) events ↔
      AllSteps linkedStep SpellsRoot (storeInit cwd stateDir dirFits) events :=
  @allSteps_iff _ _ _ (fun store : Store => store.ctx.initialized = true) _ _
    (fun _ event ready _ => linkedStep_initialized ready event)
    (fun _ event ready spells => (sparesRoot_iff ready event).mpr spells)
    (fun _ event ready missed spares => missed ((sparesRoot_iff ready event).mp spares))
    _ rfl _

/-- A host with a root directory and a directory in it. -/
def rootHost : Host := { quietHost with objects := [⟨[], true⟩, ⟨[lit "srv"], true⟩] }

/-- A volume below the root whose path leads up once. -/
def serviceDef : VolumeDef := ⟨some (lit "all"), some (lit "/opt/..//srv"), 0, 0, none⟩

/-- A volume is created and deleted, with no symbolic links. -/
def createDelete (volumeDef : VolumeDef) : List LinkedEvent :=
  [(.call (.createVolume volumeDef) rootHost, fun _ => none),
    (.call (.deleteVolume (lit "all")) rootHost, fun _ => none)]

/-- The deletion of a directory below the root spares the root. -/
theorem root_spared_service :
    AllSteps linkedStep SparesRoot (storeInit (lit "/") (lit "/var/lib/hwrun") (by decide))
      (createDelete serviceDef) := by
  refine (root_spared_iff (lit "/") (lit "/var/lib/hwrun") (by decide) _).mpr ⟨trivial, ?_, trivial⟩
  intro volume _ found _ _ root
  have path := congrArg (Option.map Volume.path) found
  rw [show Option.map Volume.path _ = some (lit "/opt/..//srv") by decide +kernel] at path
  rw [locate_plain fun _ => rfl, ← Option.some.inj path] at root
  exact absurd root (by decide +kernel)

/-- A volume whose path is the root with one slash more. -/
def slashesDef : VolumeDef := ⟨some (lit "all"), some (lit "//"), 0, 0, none⟩

/-- A volume whose path leads down and back to the root. -/
def backDef : VolumeDef := ⟨some (lit "all"), some (lit "/srv/.."), 0, 0, none⟩

/-- The root is removed through a path with two slashes, and through one that leads back to it. -/
theorem root_removed_other_spelling :
    ¬ AllSteps linkedStep SparesRoot
        (storeInit (lit "/") (lit "/var/lib/hwrun") (by decide)) (createDelete slashesDef) ∧
      ¬ AllSteps linkedStep SparesRoot
        (storeInit (lit "/") (lit "/var/lib/hwrun") (by decide)) (createDelete backDef) := by
  constructor
  · rintro ⟨-, spares, -⟩
    exact spares (lit "//") (by decide +kernel) (locate_plain (fun _ => rfl) _ _)
  · rintro ⟨-, spares, -⟩
    exact spares (lit "/srv/..") (by decide +kernel) (locate_plain (fun _ => rfl) _ _)

end HwrunOs.Storage
