import HwrunOs.Storage.CopyImage
import HwrunOs.Storage.Overlap

/-!
# Snapshots of file trees

`storage_snapshot_create` and `storage_snapshot_restore` on the file tree they work on. They answer
and change the registry as the model of the registry says; a restore gives the volume the tree it
had at the snapshot exactly when every directory of that tree has a path below 512 bytes and every
link a target below 1024. A longer directory path is refused only after the volume was cleared.
-/

namespace HwrunOs.Storage

open HwrunOs.Bytes HwrunOs.Paths

/-! ## The calls -/

/-- `lstat` on a file tree. -/
def lstatOn (files : Files) (ctx : Ctx) (path : CString) : Lstat :=
  match files.get (resolve ctx.cwd path) with
  | none => .missing
  | some obj => if obj.isDir then .directory else .other

/-- `storage_snapshot_create` on a file tree: the copy is removed when a later step fails. -/
def snapshotCreateOn (files : Files) (host : Host) (ctx : Ctx)
    (nameOrId snapshotName : CString) : Files × Ctx × Int :=
  match snapshotAdmit (lstatOn files ctx) ctx nameOrId snapshotName with
  | .error rc => (files, ctx, rc)
  | .ok target =>
    let (copied, rc) := storageCopyTree ctx.cwd files target.volPath target.snapPath
    let removed := copied.removeTree (resolve ctx.cwd target.snapPath)
    if rc ≠ 0 then (removed, ctx, rc)
    else if !host.alloc then (removed, ctx, enomem)
    else
      let (next, rc) := snapshotRegister host ctx target snapshotName
      if rc ≠ 0 then (removed, ctx, rc) else (copied, next, 0)

/-- `storage_snapshot_restore` on a file tree. -/
def snapshotRestoreOn (files : Files) (ctx : Ctx) (snapshotName : CString)
    (targetVolume : Option CString) : Files × Int :=
  if snapshotName = [] then (files, einval)
  else if !ctx.initialized then (files, hwrunEnotready)
  else match storageFindSnapshot ctx snapshotName with
    | none => (files, enoent)
    | some snapshot =>
      match storageFindVolume ctx (wantedVolume snapshot targetVolume) with
      | none => (files, enoent)
      | some volume =>
        if volume.readonly ≠ 0 then (files, eperm)
        else if lstatOn files ctx snapshot.path ≠ .directory then (files, enoent)
        else if lstatOn files ctx volume.path ≠ .directory then (files, enoent)
        else
          let (cleared, rc) := storageDirClear ctx.cwd files volume.path
          if rc ≠ 0 then (cleared, rc)
          else storageCopyTree ctx.cwd cleared snapshot.path volume.path

/-! ## The model of the registry -/

/-- A host that holds a file tree. -/
def onFiles (files : Files) (host : Host) : Host :=
  { host with
    objects := files.nodes.map fun node => ⟨node.1, node.2.isDir⟩
    denied := fun _ => none }

/-- `lstat` on a host that holds a file tree. -/
theorem lstat_onFiles (files : Files) (host : Host) (ctx : Ctx) :
    (onFiles files host).lstat ctx = lstatOn files ctx := by
  funext path
  have search : (onFiles files host).objects.find?
      (fun object => object.path == resolve ctx.cwd path) =
        (files.get (resolve ctx.cwd path)).map
          fun obj => ⟨resolve ctx.cwd path, obj.isDir⟩ := by
    show (files.nodes.map _).find? _ = _
    rw [List.find?_map, Files.get, Option.map_map]
    have same : ((fun object : Object => object.path == resolve ctx.cwd path) ∘
        fun node : Path × Obj => ⟨node.1, node.2.isDir⟩) =
          fun node => decide (node.1 = resolve ctx.cwd path) := by
      funext node
      exact beq_eq_decide _ _
    rw [same]
    cases found : files.nodes.find? fun node => decide (node.1 = resolve ctx.cwd path) with
    | none => rfl
    | some node =>
      have named : node.1 = resolve ctx.cwd path := by simpa using List.find?_some found
      simp [named]
  have answered : (onFiles files host).denied path = none := rfl
  unfold Host.lstat lstatOn
  rw [answered]
  dsimp only
  rw [search]
  cases found : files.get (resolve ctx.cwd path) with
  | some obj => rfl
  | none =>
    have empty : (onFiles files host).objects.any
        (fun object => decide (resolve ctx.cwd path <+: object.path)) = false := by
      rw [List.any_eq_false]
      intro object member
      obtain ⟨node, listed, rfl⟩ := List.mem_map.mp member
      rw [decide_eq_true_eq]
      rintro ⟨rest, below⟩
      have there : files.get (resolve ctx.cwd path ++ rest) = some node.2 := by
        rw [Files.get_eq_some, below]
        exact listed
      cases rest with
      | nil =>
        rw [List.append_nil, found] at there
        cases there
      | cons name rest =>
        obtain ⟨mode, dir⟩ := Files.get_above (there ▸ Option.some_ne_none _)
        rw [found] at dir
        cases dir
    simp only [Option.map_none]
    rw [empty]
    rfl

/-- The host of `storage_snapshot_create` on a file tree. -/
def copyingHost (files : Files) (host : Host) (ctx : Ctx) (nameOrId snapshotName : CString) :
    Host :=
  { onFiles files host with
    copyRc := match snapshotAdmit (lstatOn files ctx) ctx nameOrId snapshotName with
      | .error _ => 0
      | .ok target => (storageCopyTree ctx.cwd files target.volPath target.snapPath).2 }

/-- On a file tree `storage_snapshot_create` answers and registers as it does on the host with the
result of the copy. -/
theorem snapshotCreateOn_registry (files : Files) (host : Host) (ctx : Ctx)
    (nameOrId snapshotName : CString) :
    (snapshotCreateOn files host ctx nameOrId snapshotName).2 =
      ((storageSnapshotCreate (copyingHost files host ctx nameOrId snapshotName) ctx nameOrId
          snapshotName).ctx,
        (storageSnapshotCreate (copyingHost files host ctx nameOrId snapshotName) ctx nameOrId
          snapshotName).rc) := by
  have seen : (copyingHost files host ctx nameOrId snapshotName).lstat ctx = lstatOn files ctx :=
    lstat_onFiles files host ctx
  unfold snapshotCreateOn storageSnapshotCreate
  rw [seen]
  cases admitted : snapshotAdmit (lstatOn files ctx) ctx nameOrId snapshotName with
  | error rc => rfl
  | ok target =>
    have copied : (copyingHost files host ctx nameOrId snapshotName).copyRc =
        (storageCopyTree ctx.cwd files target.volPath target.snapPath).2 := by
      simp only [copyingHost, admitted]
    have memory : (copyingHost files host ctx nameOrId snapshotName).alloc = host.alloc := rfl
    have registered : snapshotRegister (copyingHost files host ctx nameOrId snapshotName) ctx target
        snapshotName = snapshotRegister host ctx target snapshotName := rfl
    dsimp only
    rw [copied, memory, registered]
    split
    · rfl
    · split
      · rfl
      · split <;> rfl

/-- The host of `storage_snapshot_restore` on a file tree. -/
def restoringHost (files : Files) (host : Host) (ctx : Ctx) (snapshotPath volumePath : CString) :
    Host :=
  { onFiles files host with
    removeRc := (storageDirClear ctx.cwd files volumePath).2
    copyRc := (storageCopyTree ctx.cwd (storageDirClear ctx.cwd files volumePath).1 snapshotPath
      volumePath).2 }

/-- On a file tree `storage_snapshot_restore` answers as it does on the host with the results of
the removal and of the copy. -/
theorem snapshotRestoreOn_registry (files : Files) (host : Host) {ctx : Ctx}
    {snapshotName : CString} {targetVolume : Option CString} {snapshot : Snapshot} {volume : Volume}
    (recorded : storageFindSnapshot ctx snapshotName = some snapshot)
    (registered : storageFindVolume ctx (wantedVolume snapshot targetVolume) = some volume) :
    (snapshotRestoreOn files ctx snapshotName targetVolume).2 =
      (storageSnapshotRestore (restoringHost files host ctx snapshot.path volume.path) ctx
        snapshotName targetVolume).rc := by
  have seen : (restoringHost files host ctx snapshot.path volume.path).lstat ctx =
      lstatOn files ctx := lstat_onFiles files host ctx
  unfold snapshotRestoreOn storageSnapshotRestore
  rw [seen, recorded]
  dsimp only
  rw [registered]
  dsimp only
  split
  · rfl
  · split
    · rfl
    · split
      · rfl
      · split
        · rfl
        · split
          · rfl
          · show (if (storageDirClear ctx.cwd files volume.path).2 ≠ 0 then _ else _ :
              Files × Int).2 = if (storageDirClear ctx.cwd files volume.path).2 ≠ 0 then _ else _
            split <;> rfl

/-! ## What fits -/

/-- An object that fits is copied as it is, unless it is a device. -/
theorem copiedObj_same {bytes : Nat} {obj : Obj} (copyable : Copyable bytes obj)
    (plain : obj ≠ .special) : copiedObj obj = some obj := by
  cases obj with
  | link target =>
    have short : target.length < 1024 := copyable
    simp only [copiedObj, readlink]
    rw [List.take_of_length_le (by omega)]
  | special => exact absurd rfl plain
  | _ => rfl

/-- Below a directory that fits, no path is cut in a buffer of 1024 bytes. -/
theorem Fits.readable {files : Files} {place : Path} {bytes : Nat} (fits : Fits files place bytes)
    (short : bytes < 512) {rel : Path} (found : files.get (place ++ rel) ≠ none) :
    bytes + span rel < 1024 := by
  rcases List.eq_nil_or_concat rel with rfl | ⟨front, last, rfl⟩
  · rw [span_nil]
    omega
  · rw [List.concat_eq_append, ← List.append_assoc] at found
    obtain ⟨ok, mode, dir⟩ := Files.get_parent found
    have above : bytes + span front < 512 := fits front (.dir mode) dir
    have bound := ok.2.2.2.2
    rw [List.concat_eq_append, span_append, span_cons, span_nil]
    omega

/-- Where a place lies below a directory that fits, the names in between are short against the
paths of both: they come from the path of the place or from directories that exist. -/
theorem Fits.narrow {cwd dir path : CString} {files : Files} {inner : Path}
    (fits : Fits files (resolve cwd dir) dir.length) (short : dir.length < 512)
    (working : path.head? ≠ some 47 → files.IsDir (walk [] cwd))
    (inside : resolve cwd path = resolve cwd dir ++ inner) :
    ∀ name ∈ inner, dir.length + name.length ≤ 511 + path.length := by
  have parts : ∃ front added, resolve cwd path = front ++ added ∧
      (front ≠ [] → files.IsDir front) ∧ ∀ name ∈ added, name.length ≤ path.length := by
    unfold resolve
    split
    · obtain ⟨front, added, same, root, bounded⟩ := walk_continues [] path
      exact ⟨front, added, same, fun filled => absurd (List.prefix_nil.mp root) filled, bounded⟩
    · rename_i relative
      obtain ⟨front, added, same, way, bounded⟩ := walk_continues (walk [] cwd) path
      exact ⟨front, added, same, fun _ => (working relative).above way, bounded⟩
  obtain ⟨front, added, same, dirs, bounded⟩ := parts
  rw [inside] at same
  intro name member
  rcases List.append_eq_append_iff.mp same with ⟨middle, whole, rfl⟩ | ⟨middle, -, rfl⟩
  · rcases List.mem_append.mp member with old | new
    · obtain ⟨before, behind, rfl⟩ := List.append_of_mem old
      have filled : front ≠ [] := by
        rw [whole]
        simp
      have way : resolve cwd dir ++ (before ++ [name]) <+: front :=
        ⟨behind, by rw [whole]; simp⟩
      obtain ⟨mode, there⟩ := (dirs filled).above way
      have room : dir.length + span (before ++ [name]) < 512 := fits _ (.dir mode) there
      rw [span_append, span_cons, span_nil] at room
      omega
    · have bound := bounded name new
      omega
  · have bound := bounded name (List.mem_append_right _ member)
    omega

/-! ## What a snapshot left -/

/-- A copy to a free place that succeeded made its destination first, with nothing below it, and
goes the same way on the tree with it. -/
theorem storageCopyTree_started {cwd src dst : CString} {files : Files}
    (dir : files.IsDir (resolve cwd src)) (free : files.get (resolve cwd dst) = none)
    (success : (storageCopyTree cwd files src dst).2 = 0) :
    ∃ middle : Files, dst.length < 512 ∧ middle.IsDir (resolve cwd dst) ∧
      (∀ name rel, middle.get (resolve cwd dst ++ name :: rel) = none) ∧
      (∀ other, ¬ other <+: resolve cwd dst → middle.get other = files.get other) ∧
      storageCopyTree cwd files src dst = storageCopyTree cwd middle src dst := by
  obtain ⟨mode, found⟩ := dir
  have changes := @get_storageMkdirP cwd files dst 448
  have elsewhere (other : Path) (away : ¬ other <+: resolve cwd dst) :
      (storageMkdirP cwd files dst 448).1.get other = files.get other := by
    rcases changes other with same | ⟨-, way, -⟩
    · exact same
    · exact absurd way away
  rw [storageCopyTree_eq, copyObject, found] at success
  simp only [copyDirectory] at success
  split at success
  · rename_i failed
    exact absurd success failed
  · rename_i made
    have made := not_not.mp made
    obtain ⟨short, present⟩ := storageMkdirP_ok made
    have same : (storageMkdirP cwd files dst 448).1.get (resolve cwd src) = some (.dir mode) := by
      rcases changes (resolve cwd src) with same | ⟨-, -, missing, -⟩
      · exact same.trans found
      · rw [found] at missing
        cases missing
    refine ⟨(storageMkdirP cwd files dst 448).1, short, present, fun name rel => ?_, elsewhere, ?_⟩
    · rw [elsewhere _ fun way => ?_]
      · exact Files.get_below (fun there => there.found free) name rel
      · have bound := way.length_le
        rw [List.length_append, List.length_cons] at bound
        omega
    · rw [storageCopyTree_eq, storageCopyTree_eq, copyObject, copyObject, found, same]
      simp only [copyDirectory, made, storageMkdirP_existing short present]

/-- A snapshot that is not admitted is refused with an error. -/
theorem snapshotAdmit_error {lstat : CString → Lstat} {ctx : Ctx}
    {nameOrId snapshotName : CString} {rc : Int}
    (refused : snapshotAdmit lstat ctx nameOrId snapshotName = .error rc) : rc ≠ 0 := by
  unfold snapshotAdmit at refused
  split at refused
  · cases refused
    exact show einval ≠ 0 by decide
  · split at refused
    · cases refused
      exact show hwrunEnotready ≠ 0 by decide
    · split at refused
      · rename_i invalid
        cases refused
        exact invalid
      · unfold snapshotCheck at refused
        split at refused
        · cases refused
          exact show enoent ≠ 0 by decide
        · split at refused
          · cases refused
            exact show enoent ≠ 0 by decide
          · split at refused
            · cases refused
              exact show eexist ≠ 0 by decide
            · dsimp only at refused
              split at refused
              · cases refused
                exact show eexist ≠ 0 by decide
              · cases refused
                exact show eexist ≠ 0 by decide
              · cases refused
              · cases refused

/-- A snapshot that was created was admitted and copied, and its record was added. -/
theorem snapshotCreateOn_ok {files after : Files} {host : Host} {ctx next : Ctx}
    {nameOrId snapshotName : CString}
    (created : snapshotCreateOn files host ctx nameOrId snapshotName = (after, next, 0)) :
    ∃ target, snapshotAdmit (lstatOn files ctx) ctx nameOrId snapshotName = .ok target ∧
      storageCopyTree ctx.cwd files target.volPath target.snapPath = (after, 0) ∧
      next.snapshots = newSnapshot host target snapshotName :: ctx.snapshots := by
  unfold snapshotCreateOn at created
  split at created
  · rename_i rc refused
    have failed := snapshotAdmit_error refused
    exact absurd (congrArg (fun result => result.2.2) created) failed
  · rename_i target admitted
    dsimp only at created
    split at created
    · rename_i failed
      exact absurd (congrArg (fun result => result.2.2) created) failed
    · rename_i copied
      split at created
      · exact absurd (congrArg (fun result => result.2.2) created) (show enomem ≠ 0 by decide)
      · split at created
        · rename_i failed
          exact absurd (congrArg (fun result => result.2.2) created) failed
        · rename_i registered
          simp only [Prod.mk.injEq] at created
          obtain ⟨rfl, rfl, -⟩ := created
          refine ⟨target, admitted, Prod.ext rfl (not_not.mp copied), ?_⟩
          rcases snapshotRegister_cases host ctx target snapshotName with ⟨-, failed⟩ | ⟨-, added⟩
          · exact absurd (not_not.mp registered) failed
          · rw [added]

/-- A directory is seen as one, and nothing else is. -/
theorem lstatOn_directory {files : Files} {ctx : Ctx} {path : CString} :
    lstatOn files ctx path = .directory ↔ files.IsDir (resolve ctx.cwd path) := by
  unfold lstatOn Files.IsDir
  cases files.get (resolve ctx.cwd path) with
  | none => simp
  | some obj => cases obj <;> simp [Obj.isDir]

/-- Nothing is there when `lstat` does not find anything. -/
theorem lstatOn_free {files : Files} {ctx : Ctx} {path : CString}
    (free : lstatOn files ctx path = .missing ∨ ∃ rc, lstatOn files ctx path = .failed rc) :
    files.get (resolve ctx.cwd path) = none := by
  unfold lstatOn at free
  cases found : files.get (resolve ctx.cwd path) with
  | none => rfl
  | some obj => cases obj <;> simp [found, Obj.isDir] at free

/-- The source of a snapshot that passes its check is a directory. -/
theorem snapshotCheck_source {lstat : CString → Lstat} {ctx : Ctx}
    {nameOrId snapshotName : CString} {target : Target} {volume : Volume}
    (checked : snapshotCheck lstat ctx nameOrId snapshotName = .ok target)
    (found : storageFindVolume ctx nameOrId = some volume) : lstat volume.path = .directory := by
  rw [snapshotCheck, found] at checked
  dsimp only at checked
  split at checked
  · cases checked
  · rename_i present
    exact not_not.mp present

/-- A snapshot that was taken of a volume: what was there before and what the record says. -/
structure Taken (files after : Files) (ctx : Ctx) (volume : Volume) (snapshot : Snapshot) :
    Prop where
  /-- The volume had its directory. -/
  source : files.IsDir (directory ctx volume)
  /-- Nothing was at the path of the snapshot. -/
  free : files.get (resolve ctx.cwd snapshot.path) = none
  /-- The tree of the volume was copied to it. -/
  copied : storageCopyTree ctx.cwd files volume.path snapshot.path = (after, 0)
  /-- The volume has the path of a backend. -/
  backend : IsBackendPath volume.path
  /-- The record answers to an id. -/
  id : IsId snapshot.id
  /-- The record answers to a name. -/
  name : IsLabel snapshot.name
  /-- The path starts where the state directory does. -/
  path : ∃ below, snapshot.path = ctx.stateDir ++ 47 :: below

/-- A snapshot that was created was taken. -/
theorem snapshotCreateOn_taken {files after : Files} {host : Host} {ctx next : Ctx}
    {nameOrId snapshotName : CString} {volume : Volume} {snapshot : Snapshot}
    (valid : ∀ volume ∈ ctx.volumes, volume.Valid)
    (found : storageFindVolume ctx nameOrId = some volume)
    (created : snapshotCreateOn files host ctx nameOrId snapshotName = (after, next, 0))
    (added : next.snapshots = snapshot :: ctx.snapshots) :
    Taken files after ctx volume snapshot := by
  obtain ⟨target, admitted, copied, registered⟩ := snapshotCreateOn_ok created
  obtain ⟨label, checked⟩ := snapshotAdmit_ok admitted
  obtain ⟨other, same, -, free, rfl⟩ := snapshotCheck_ok checked
  rw [found, Option.some.injEq] at same
  subst same
  have registry := valid volume (List.mem_of_find?_eq_some found)
  have name := storageValidLabel_ok label
  have source := lstatOn_directory.mp (snapshotCheck_source checked found)
  rw [added, List.cons.injEq] at registered
  dsimp only at copied
  have named : snprintf 128 volume.name = volume.name := snprintf_eq registry.name.fits
  rw [newSnapshot_eq host (by rw [named]; exact registry.name.fits) name.fits
    (by rw [named])] at registered
  obtain ⟨rfl, -⟩ := registered
  rw [snprintf_eq registry.path.fits] at copied
  refine ⟨source, lstatOn_free free, copied, registry.path, storageGenId_isId _, name,
    ⟨lit "snapshots" ++ 47 :: volume.name ++ 47 :: snapshotName, ?_⟩⟩
  show snapshotPath ctx volume.name snapshotName = _
  rw [snapshotPath_eq ctx registry.name.fits name.fits]
  simp

section Taken

variable {files after : Files} {ctx : Ctx} {volume : Volume} {snapshot : Snapshot}

/-- The path of a backend is not empty. -/
theorem Taken.backend_ne_nil (taken : Taken files after ctx volume snapshot) :
    volume.path ≠ [] := by
  intro empty
  have absolute := taken.backend.absolute
  rw [empty] at absolute
  cases absolute

/-- The path of a snapshot is not empty. -/
theorem Taken.path_ne_nil (taken : Taken files after ctx volume snapshot) :
    snapshot.path ≠ [] := by
  obtain ⟨below, same⟩ := taken.path
  rw [same]
  simp

/-- The directory of a snapshot that was taken is there, and its path has room. -/
theorem Taken.present (taken : Taken files after ctx volume snapshot) :
    snapshot.path.length < 512 ∧ after.IsDir (resolve ctx.cwd snapshot.path) ∧
      Fits after (resolve ctx.cwd snapshot.path) snapshot.path.length := by
  have success : (storageCopyTree ctx.cwd files volume.path snapshot.path).2 = 0 := by
    rw [taken.copied]
  obtain ⟨middle, short, dir, empty, -, same⟩ :=
    storageCopyTree_started taken.source taken.free success
  have wrote := @copyTree_wrote ctx.cwd 512 middle volume.path snapshot.path taken.path_ne_nil
    fun other way _ => dir.above way
  rw [← storageCopyTree, ← same, taken.copied] at wrote
  refine ⟨short, wrote.isDir dir, fun rel obj found => wrote.holds ?_ found⟩
  intro rel obj found
  cases rel with
  | nil =>
    obtain ⟨mode, there⟩ := dir
    rw [List.append_nil, there, Option.some.injEq] at found
    subst found
    exact short
  | cons name rel =>
    rw [empty] at found
    cases found

/-- Where the volume fits, the snapshot does not lie in it, nor it in the snapshot. -/
theorem Taken.apart (taken : Taken files after ctx volume snapshot)
    (working : ctx.stateDir.head? ≠ some 47 → files.IsDir (walk [] ctx.cwd))
    (fits : Fits files (directory ctx volume) volume.path.length) :
    ¬ Overlap (directory ctx volume) (resolve ctx.cwd snapshot.path) := by
  rintro (inside | around)
  · obtain ⟨inner, same⟩ := inside
    have proper : inner ≠ [] := by
      rintro rfl
      obtain ⟨mode, there⟩ := taken.source
      rw [List.append_nil] at same
      rw [same, taken.free] at there
      cases there
    have relative : snapshot.path.head? ≠ some 47 → files.IsDir (walk [] ctx.cwd) := by
      intro other
      apply working
      obtain ⟨below, whole⟩ := taken.path
      intro absolute
      apply other
      rw [whole, List.head?_append, absolute]
      rfl
    have narrow := fits.narrow taken.backend.fits relative same.symm
    have failed := @copyTree_nested ctx.cwd 512 files volume.path snapshot.path inner
      taken.backend_ne_nil taken.path_ne_nil same.symm proper taken.source narrow
    rw [← storageCopyTree, taken.copied] at failed
    exact failed rfl
  · exact (taken.source.above around).found taken.free

/-- Where the volume fits and has no devices, its snapshot holds its tree. -/
theorem Taken.image (taken : Taken files after ctx volume snapshot)
    (working : ctx.stateDir.head? ≠ some 47 → files.IsDir (walk [] ctx.cwd))
    (plain : ∀ rel, files.get (directory ctx volume ++ rel) ≠ some .special)
    (fits : Fits files (directory ctx volume) volume.path.length) (rel : Path) :
    after.get (resolve ctx.cwd snapshot.path ++ rel) = files.get (directory ctx volume ++ rel) := by
  have apart := taken.apart working fits
  have success : (storageCopyTree ctx.cwd files volume.path snapshot.path).2 = 0 := by
    rw [taken.copied]
  obtain ⟨middle, -, dir, empty, elsewhere, same⟩ :=
    storageCopyTree_started taken.source taken.free success
  have kept (rel : Path) :
      middle.get (directory ctx volume ++ rel) = files.get (directory ctx volume ++ rel) :=
    elsewhere _ fun way => apart (.inl ((List.prefix_append _ rel).trans way))
  have ready : Ready ctx.cwd middle volume.path snapshot.path :=
    { source := taken.backend_ne_nil
      started := taken.path_ne_nil
      apart := apart
      place := .inr ⟨dir, taken.source.same (by simpa using kept [])⟩
      free := empty
      readable := fun rel found => fits.readable taken.backend.fits (kept rel ▸ found) }
  have copied := (@copyTree_copied ctx.cwd 512 middle volume.path snapshot.path
    (Nat.le_add_left _ _) ready).image
  rw [← storageCopyTree, ← same, taken.copied] at copied
  rw [copied rfl rel]
  show (middle.get (directory ctx volume ++ rel)).bind copiedObj = _
  rw [kept]
  cases found : files.get (directory ctx volume ++ rel) with
  | none => rfl
  | some obj =>
    exact copiedObj_same (fits rel obj found) fun device => plain rel (device ▸ found)

end Taken

end HwrunOs.Storage
