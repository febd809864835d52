import HwrunOs.Storage.StateFile

/-!
# Operations that fail

An operation that returns an error should leave the registry as it was, and the state file with
it. Creating a volume or a snapshot takes its record back when the state file cannot be written;
deleting one, or unregistering a volume, does not, and deleting a snapshot can fail after both were
written.
-/

namespace HwrunOs.Storage

open HwrunOs.Bytes HwrunOs.Paths HwrunOs.Runs

/-- The registry and the state file, if there is one. -/
structure Store where
  /-- The registry in memory. -/
  ctx : Ctx
  /-- What the state file holds. -/
  file : Option CString

/-- The state file after `storage_persist`: replaced by `rename`, or left alone. -/
def persistFile (host : Host) (next : Ctx) (file : Option CString) : Option CString :=
  if storagePersist host next = 0 then some (stateText next) else file

/-- The state file after a call. Only `storage_snapshot_delete` has something left to do after it
has written the file, so every other operation has written it when it returns zero. -/
def fileAfter (host : Host) (store : Store) : Action → Option CString
  | .snapshotRestore _ _ => store.file
  | .snapshotDelete snapshotName =>
    match snapshotForget host store.ctx snapshotName with
    | .error _ => store.file
    | .ok (_, next, _) => persistFile host next store.file
  | action =>
    let outcome := perform host store.ctx action
    if outcome.rc = 0 then some (stateText outcome.ctx) else store.file

/-- Registry and state file after a call on a host. -/
def storeStep (store : Store) (call : Action × Host) : Store where
  ctx := (perform call.2 store.ctx call.1).ctx
  file := fileAfter call.2 store call.1

/-- A call that returns an error leaves the registry and the state file as they were. -/
def ErrorKept (store : Store) (call : Action × Host) : Prop :=
  (perform call.2 store.ctx call.1).rc ≠ 0 → storeStep store call = store

/-- `storage_delete_volume` takes the record out: the volume exists, its data may be removed, and
the removal of its directory succeeds. -/
def DeletesVolume (host : Host) (ctx : Ctx) (nameOrId : CString) : Prop :=
  nameOrId ≠ [] ∧ ctx.initialized = true ∧
    ∃ volume ∈ storageFindVolume ctx nameOrId, volume.readonly = 0 ∧ volume.path ≠ lit "/" ∧
      host.lstat ctx volume.path ≠ .other ∧
      (host.lstat ctx volume.path = .directory → host.removeRc = 0)

/-- `storage_unregister_volume` takes the record out: the volume exists. -/
def UnregistersVolume (ctx : Ctx) (nameOrId : CString) : Prop :=
  nameOrId ≠ [] ∧ ctx.initialized = true ∧ (storageFindVolume ctx nameOrId).isSome

/-- A snapshot that `storage_snapshot_delete` takes out. -/
def DeletesSnapshot (ctx : Ctx) (snapshotName : CString) (snapshot : Snapshot) : Prop :=
  snapshotName ≠ [] ∧ ctx.initialized = true ∧
    storageFindSnapshot ctx snapshotName = some snapshot

/-- The call fails after it took a record out: the state file cannot be written without it, or it
was written and the snapshot directory cannot be removed. -/
def Unrolled (store : Store) (call : Action × Host) : Prop :=
  match call.1 with
  | .deleteVolume nameOrId =>
    DeletesVolume call.2 store.ctx nameOrId ∧ storagePersist call.2 store.ctx ≠ 0
  | .unregisterVolume nameOrId =>
    UnregistersVolume store.ctx nameOrId ∧ storagePersist call.2 store.ctx ≠ 0
  | .snapshotDelete snapshotName =>
    ∃ snapshot, DeletesSnapshot store.ctx snapshotName snapshot ∧
      (storagePersist call.2 store.ctx ≠ 0 ∨
        (call.2.lstat store.ctx snapshot.path = .directory ∧ call.2.removeRc ≠ 0))
  | _ => False

/-! ## Operations that roll back -/

/-- Creating a volume changes the registry only when it succeeds. -/
theorem createVolume_cases (host : Host) (ctx : Ctx) (volumeDef : VolumeDef) :
    (storageCreateVolume host ctx volumeDef).ctx = ctx ∨
      (storageCreateVolume host ctx volumeDef).rc = 0 := by
  have registered (name path : CString) :
      (registerVolume host ctx name path volumeDef).ctx = ctx ∨
        (registerVolume host ctx name path volumeDef).rc = 0 := by
    unfold registerVolume
    split
    · exact .inl rfl
    · split
      · exact .inl rfl
      · split
        · exact .inl rfl
        · split
          · exact .inl rfl
          · dsimp only
            split
            · exact .inl rfl
            · exact .inr rfl
  unfold storageCreateVolume
  split
  · split
    · exact .inl rfl
    · split
      · exact .inl rfl
      · split
        · exact .inl rfl
        · exact registered _ _
  · exact .inl rfl

/-- Creating a snapshot changes the registry only when it succeeds. -/
theorem snapshotCreate_cases (host : Host) (ctx : Ctx) (nameOrId snapshotName : CString) :
    (storageSnapshotCreate host ctx nameOrId snapshotName).ctx = ctx ∨
      (storageSnapshotCreate host ctx nameOrId snapshotName).rc = 0 := by
  unfold storageSnapshotCreate
  split
  · exact .inl rfl
  · split
    · exact .inl rfl
    · split
      · exact .inl rfl
      · dsimp only
        split
        · exact .inl rfl
        · exact .inr rfl

/-! ## Operations that do not -/

/-- Taking out a record that is found changes a list. -/
theorem eraseP_ne {α : Type} {answers : α → Bool} {records : List α} {record : α}
    (found : records.find? answers = some record) : records.eraseP answers ≠ records := by
  intro same
  have shorter := List.length_eraseP_add_one (List.mem_of_find?_eq_some found)
    (List.find?_some found)
  rw [same] at shorter
  omega

/-- `storage_delete_volume` takes the record out and writes the registry, or leaves it alone. -/
theorem deleteVolume_cases (host : Host) (ctx : Ctx) (nameOrId : CString) :
    (DeletesVolume host ctx nameOrId ∧ ∃ removals,
      storageDeleteVolume host ctx nameOrId = dropVolume host ctx nameOrId removals) ∨
    (¬ DeletesVolume host ctx nameOrId ∧ (storageDeleteVolume host ctx nameOrId).ctx = ctx) := by
  unfold storageDeleteVolume
  split
  · rename_i empty
    exact .inr ⟨fun deletes => deletes.1 empty, rfl⟩
  · rename_i filled
    split
    · rename_i idle
      refine .inr ⟨?_, rfl⟩
      rintro ⟨-, ready, -⟩
      simp [ready] at idle
    · rename_i ready
      have ready : ctx.initialized = true := by simpa using ready
      split
      · rename_i missing
        refine .inr ⟨?_, rfl⟩
        rintro ⟨-, -, volume, found, -⟩
        rw [missing] at found
        cases found
      · rename_i volume found
        have refused {reason : Prop} (given : reason)
            (needs : volume.readonly = 0 ∧ volume.path ≠ lit "/" ∧
              host.lstat ctx volume.path ≠ .other ∧
              (host.lstat ctx volume.path = .directory → host.removeRc = 0) → ¬ reason) :
            ¬ DeletesVolume host ctx nameOrId := by
          rintro ⟨-, -, other, same, checks⟩
          rw [found] at same
          obtain rfl := Option.some.inj same
          exact needs checks given
        have deletes (checks : volume.readonly = 0 ∧ volume.path ≠ lit "/" ∧
            host.lstat ctx volume.path ≠ .other ∧
            (host.lstat ctx volume.path = .directory → host.removeRc = 0)) :
            DeletesVolume host ctx nameOrId := ⟨filled, ready, volume, found, checks⟩
        split
        · rename_i locked
          exact .inr ⟨refused locked fun checks locked => locked checks.1, rfl⟩
        · rename_i open_
          have open_ := not_not.mp open_
          split
          · rename_i root
            exact .inr ⟨refused root fun checks => checks.2.1, rfl⟩
          · rename_i below
            split
            · rename_i other
              exact .inr ⟨refused other fun checks => checks.2.2.1, rfl⟩
            · rename_i directory
              split
              · rename_i stuck
                exact .inr ⟨refused stuck fun checks stuck =>
                  stuck (checks.2.2.2 directory), rfl⟩
              · rename_i removed
                refine .inl ⟨deletes ⟨open_, below, ?_, fun _ => not_not.mp removed⟩, _, rfl⟩
                rw [directory]
                exact fun same => by cases same
            · rename_i gone
              refine .inl ⟨deletes ⟨open_, below, ?_, ?_⟩, _, rfl⟩
              · rw [gone]
                exact fun same => by cases same
              · rw [gone]
                exact fun same => by cases same
            · rename_i rc denied
              refine .inl ⟨deletes ⟨open_, below, ?_, ?_⟩, _, rfl⟩
              · rw [denied]
                exact fun same => by cases same
              · rw [denied]
                exact fun same => by cases same

/-- `storage_unregister_volume` takes the record out and writes the registry, or leaves it
alone. -/
theorem unregisterVolume_cases (host : Host) (ctx : Ctx) (nameOrId : CString) :
    (UnregistersVolume ctx nameOrId ∧
      storageUnregisterVolume host ctx nameOrId = dropVolume host ctx nameOrId []) ∨
    (¬ UnregistersVolume ctx nameOrId ∧
      (storageUnregisterVolume host ctx nameOrId).ctx = ctx) := by
  unfold storageUnregisterVolume
  split
  · rename_i empty
    exact .inr ⟨fun found => found.1 empty, rfl⟩
  · rename_i filled
    split
    · rename_i idle
      refine .inr ⟨?_, rfl⟩
      rintro ⟨-, ready, -⟩
      simp [ready] at idle
    · rename_i ready
      split
      · rename_i missing
        refine .inr ⟨?_, rfl⟩
        rintro ⟨-, -, known⟩
        rw [missing] at known
        cases known
      · rename_i volume found
        exact .inl ⟨⟨filled, by simpa using ready, by rw [found]; rfl⟩, rfl⟩

/-- `storage_snapshot_delete` takes the record out and writes the registry, or leaves it alone. -/
theorem snapshotForget_cases (host : Host) (ctx : Ctx) (snapshotName : CString) :
    (∃ snapshot, DeletesSnapshot ctx snapshotName snapshot ∧
      snapshotForget host ctx snapshotName = .ok (snapshot,
        { ctx with snapshots := ctx.snapshots.eraseP (Snapshot.answers snapshotName) },
        storagePersist host ctx)) ∨
    ((∀ snapshot, ¬ DeletesSnapshot ctx snapshotName snapshot) ∧
      ∃ rc, snapshotForget host ctx snapshotName = .error rc) := by
  unfold snapshotForget
  split
  · rename_i empty
    exact .inr ⟨fun _ found => found.1 empty, _, rfl⟩
  · rename_i filled
    split
    · rename_i idle
      refine .inr ⟨?_, _, rfl⟩
      rintro snapshot ⟨-, ready, -⟩
      simp [ready] at idle
    · rename_i ready
      split
      · rename_i missing
        refine .inr ⟨?_, _, rfl⟩
        rintro snapshot ⟨-, -, found⟩
        rw [missing] at found
        cases found
      · rename_i snapshot found
        exact .inl ⟨snapshot, ⟨filled, by simpa using ready, found⟩, rfl⟩

/-- A snapshot that is taken out is deleted without an error when the state file is written and its
directory is gone or can be removed. -/
theorem snapshotDelete_rc {host : Host} {ctx next : Ctx} {snapshotName : CString}
    {snapshot : Snapshot}
    (forgotten : snapshotForget host ctx snapshotName =
      .ok (snapshot, next, storagePersist host ctx)) :
    (storageSnapshotDelete host ctx snapshotName).rc = 0 ↔
      ¬ (storagePersist host ctx ≠ 0 ∨
        (host.lstat ctx snapshot.path = .directory ∧ host.removeRc ≠ 0)) := by
  simp only [storageSnapshotDelete, forgotten]
  by_cases written : storagePersist host ctx = 0
  · by_cases directory : host.lstat ctx snapshot.path = .directory
    · rw [if_pos ⟨written, directory⟩]
      by_cases removed : host.removeRc = 0
      · simp [written, removed]
      · have failed : (if host.removeRc = 0 then 0
            else if host.removeRc = -1 then eio else host.removeRc) ≠ 0 := by
          rw [if_neg removed]
          split
          · decide
          · exact removed
        exact iff_of_false failed fun fine => fine (.inr ⟨directory, removed⟩)
    · rw [if_neg fun both => directory both.2]
      simp [written, directory]
  · rw [if_neg fun both => written both.1]
    simp [written]

/-- Taking a volume out without writing the state file is not rolled back. -/
theorem dropVolume_kept_iff {host : Host} {store : Store} {nameOrId : CString} {volume : Volume}
    (found : storageFindVolume store.ctx nameOrId = some volume) (removals : List Removal) :
    ((dropVolume host store.ctx nameOrId removals).rc ≠ 0 →
      (dropVolume host store.ctx nameOrId removals).ctx = store.ctx) ↔
    ¬ storagePersist host store.ctx ≠ 0 := by
  have changed : (dropVolume host store.ctx nameOrId removals).ctx ≠ store.ctx := by
    intro same
    exact eraseP_ne found (congrArg Ctx.volumes same)
  constructor
  · exact fun kept failed => changed (kept failed)
  · exact fun written failed => absurd failed written

/-- Outside of `storage_snapshot_delete` the state file is as it was after an error. -/
theorem errorKept_ctx {store : Store} {call : Action × Host}
    (other : ∀ snapshotName, call.1 ≠ .snapshotDelete snapshotName) :
    ErrorKept store call ↔ ((perform call.2 store.ctx call.1).rc ≠ 0 →
      (perform call.2 store.ctx call.1).ctx = store.ctx) := by
  have file (failed : (perform call.2 store.ctx call.1).rc ≠ 0) :
      fileAfter call.2 store call.1 = store.file := by
    obtain ⟨action, host⟩ := call
    cases action with
    | snapshotDelete snapshotName => exact absurd rfl (other snapshotName)
    | snapshotRestore snapshotName targetVolume => rfl
    | createVolume volumeDef => exact if_neg failed
    | deleteVolume nameOrId => exact if_neg failed
    | unregisterVolume nameOrId => exact if_neg failed
    | snapshotCreate nameOrId snapshotName => exact if_neg failed
  constructor
  · exact fun kept failed => congrArg Store.ctx (kept failed)
  · intro kept failed
    rw [storeStep, kept failed, file failed]

/-- A call that returns an error leaves the registry and the state file as they were exactly when
it does not fail after taking a record out. -/
theorem errorKept_iff (store : Store) (call : Action × Host) :
    ErrorKept store call ↔ ¬ Unrolled store call := by
  obtain ⟨action, host⟩ := call
  cases action with
  | createVolume volumeDef =>
    rw [errorKept_ctx fun _ same => by cases same]
    refine ⟨fun _ unrolled => unrolled, fun _ failed => ?_⟩
    exact (createVolume_cases host store.ctx volumeDef).resolve_right failed
  | snapshotCreate nameOrId snapshotName =>
    rw [errorKept_ctx fun _ same => by cases same]
    refine ⟨fun _ unrolled => unrolled, fun _ failed => ?_⟩
    exact (snapshotCreate_cases host store.ctx nameOrId snapshotName).resolve_right failed
  | snapshotRestore snapshotName targetVolume =>
    rw [errorKept_ctx fun _ same => by cases same]
    refine ⟨fun _ unrolled => unrolled, fun _ _ => ?_⟩
    exact storageSnapshotRestore_ctx host store.ctx snapshotName targetVolume
  | deleteVolume nameOrId =>
    rw [errorKept_ctx fun _ same => by cases same]
    show (_ → (storageDeleteVolume host store.ctx nameOrId).ctx = store.ctx) ↔
      ¬ (DeletesVolume host store.ctx nameOrId ∧ storagePersist host store.ctx ≠ 0)
    rcases deleteVolume_cases host store.ctx nameOrId with ⟨deletes, removals, same⟩ | ⟨not, same⟩
    · obtain ⟨-, -, volume, found, -⟩ := id deletes
      have exact := @dropVolume_kept_iff host store nameOrId volume found removals
      simp only [perform, same, exact, deletes, true_and]
    · exact ⟨fun _ both => not both.1, fun _ _ => same⟩
  | unregisterVolume nameOrId =>
    rw [errorKept_ctx fun _ same => by cases same]
    show (_ → (storageUnregisterVolume host store.ctx nameOrId).ctx = store.ctx) ↔
      ¬ (UnregistersVolume store.ctx nameOrId ∧ storagePersist host store.ctx ≠ 0)
    rcases unregisterVolume_cases host store.ctx nameOrId with ⟨found, same⟩ | ⟨not, same⟩
    · obtain ⟨volume, listed⟩ := Option.isSome_iff_exists.mp found.2.2
      have exact := @dropVolume_kept_iff host store nameOrId volume listed []
      simp only [perform, same, exact, found, true_and]
    · exact ⟨fun _ both => not both.1, fun _ _ => same⟩
  | snapshotDelete snapshotName =>
    rcases snapshotForget_cases host store.ctx snapshotName with
      ⟨snapshot, found, forgotten⟩ | ⟨not, rc, refused⟩
    · have changed : (storageSnapshotDelete host store.ctx snapshotName).ctx ≠ store.ctx := by
        intro same
        have list := congrArg Ctx.snapshots same
        simp only [storageSnapshotDelete, forgotten] at list
        split at list
        · exact eraseP_ne found.2.2 list
        · exact eraseP_ne found.2.2 list
      have kept : ErrorKept store (.snapshotDelete snapshotName, host) ↔
          (storageSnapshotDelete host store.ctx snapshotName).rc = 0 := by
        constructor
        · intro kept
          by_contra failed
          exact changed (congrArg Store.ctx (kept failed))
        · exact fun success failed => absurd success failed
      have unrolled : Unrolled store (.snapshotDelete snapshotName, host) ↔
          (storagePersist host store.ctx ≠ 0 ∨
            (host.lstat store.ctx snapshot.path = .directory ∧ host.removeRc ≠ 0)) := by
        constructor
        · rintro ⟨other, named, failed⟩
          obtain rfl := Option.some.inj (found.2.2.symm.trans named.2.2)
          exact failed
        · exact fun failed => ⟨snapshot, found, failed⟩
      rw [kept, unrolled]
      exact snapshotDelete_rc forgotten
    · have same : storeStep store (.snapshotDelete snapshotName, host) = store := by
        simp only [storeStep, perform, storageSnapshotDelete, fileAfter, refused]
        rfl
      refine ⟨?_, fun _ _ => same⟩
      rintro - ⟨snapshot, found, -⟩
      exact not snapshot found

/-! ## Agreement with the state file -/

/-- The state file is what was written for the registry; an empty registry needs none. -/
def Agrees (store : Store) : Prop :=
  match store.file with
  | none => store.ctx.volumes = [] ∧ store.ctx.snapshots = []
  | some text => text = stateText store.ctx

/-- A call that succeeds has written the registry it leaves, or changed nothing. -/
theorem agrees_success {store : Store} (agrees : Agrees store) {call : Action × Host}
    (success : (perform call.2 store.ctx call.1).rc = 0) : Agrees (storeStep store call) := by
  obtain ⟨action, host⟩ := call
  have rewritten (file : fileAfter host store action =
      some (stateText (perform host store.ctx action).ctx)) :
      Agrees (storeStep store (action, host)) := by
    unfold Agrees storeStep
    simp only [file]
  cases action with
  | createVolume volumeDef => exact rewritten (if_pos success)
  | deleteVolume nameOrId => exact rewritten (if_pos success)
  | unregisterVolume nameOrId => exact rewritten (if_pos success)
  | snapshotCreate nameOrId snapshotName => exact rewritten (if_pos success)
  | snapshotRestore snapshotName targetVolume =>
    unfold Agrees storeStep
    simp only [perform, storageSnapshotRestore_ctx, fileAfter]
    exact agrees
  | snapshotDelete snapshotName =>
    rcases snapshotForget_cases host store.ctx snapshotName with
      ⟨snapshot, found, forgotten⟩ | ⟨not, rc, refused⟩
    · have written : storagePersist host store.ctx = 0 := by
        by_contra failed
        exact (snapshotDelete_rc forgotten).mp success (.inl failed)
      apply rewritten
      have left : (perform host store.ctx (.snapshotDelete snapshotName)).ctx =
          { store.ctx with
            snapshots := store.ctx.snapshots.eraseP (Snapshot.answers snapshotName) } := by
        simp only [perform, storageSnapshotDelete, forgotten]
        split
        · rfl
        · rfl
      rw [left]
      simp only [fileAfter, forgotten, persistFile]
      exact if_pos written
    · unfold Agrees storeStep
      simp only [perform, storageSnapshotDelete, fileAfter, refused]
      exact agrees

/-- A registry that agrees with its state file agrees with it along every run in which no call
fails after taking a record out. -/
theorem run_agrees {store : Store} (agrees : Agrees store) {calls : List (Action × Host)}
    (rolled : AllSteps storeStep (fun store call => ¬ Unrolled store call) store calls) :
    AllStates storeStep Agrees store calls := by
  apply @allStates_of_steps _ _ storeStep Agrees (fun store call => ¬ Unrolled store call) _ store
    agrees calls rolled
  intro state call agrees kept
  by_cases success : (perform call.2 state.ctx call.1).rc = 0
  · exact agrees_success agrees success
  · rw [(errorKept_iff state call).mpr kept success]
    exact agrees

/-- Along every run from any registry and state file, the calls that return an error leave both as
they were exactly when no call fails after taking a record out. -/
theorem run_errors_kept_iff (store : Store) (calls : List (Action × Host)) :
    AllSteps storeStep ErrorKept store calls ↔
      AllSteps storeStep (fun store call => ¬ Unrolled store call) store calls := by
  constructor
  · exact AllSteps.mono fun state call kept => (errorKept_iff state call).mp kept
  · exact AllSteps.mono fun state call rolled => (errorKept_iff state call).mpr rolled

/-- A registered volume. -/
def dataVolume : Volume := ⟨lit "ab", lit "data", lit "/data", [], 0, 0, 0⟩

/-- The state directory fits. -/
theorem state_dir_fits : (lit "/s").length < 240 := by decide

/-- A registry with one volume. -/
def dataCtx : Ctx := ⟨true, lit "/", lit "/s", state_dir_fits, [dataVolume], []⟩

/-- A host that cannot write the state file. -/
def fullHost : Host := { quietHost with persistRc := eio }

/-- `storage_unregister_volume` that cannot write the state file forgets the volume. -/
theorem unregister_not_rolled_back : ¬ ∀ (store : Store) (calls : List (Action × Host)),
    AllSteps storeStep ErrorKept store calls := by
  intro claim
  have kept := (claim ⟨dataCtx, some (stateText dataCtx)⟩
    [(.unregisterVolume (lit "data"), fullHost)]).1 (by decide +kernel)
  have volumes := congrArg (fun store => store.ctx.volumes) kept
  revert volumes
  decide +kernel

end HwrunOs.Storage
