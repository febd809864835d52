import HwrunOs.Storage.Overlap

/-!
# Snapshot directories

The paths that `storage_snapshot_create` builds from the state directory of `storage_impl_init`
and from two names that `storage_valid_label` accepted: none is cut, each lies in the directory of
its volume, and no two of them are the same or one inside the other.
-/

namespace HwrunOs.Storage

open HwrunOs.Bytes HwrunOs.Paths

/-- The state directory of `storage_impl_init`, from the value of `HWRUN_STATE`. -/
def stateDirectory (env : Option CString) : Except Int (Field 240) :=
  match env with
  | none | some [] => .ok (Field.copy (lit "/var/lib/hwrun"))
  | some text => if 240 ≤ text.length then .error enametoolong else .ok (Field.copy text)

/-- The directory that holds the snapshots of a volume, as a text. -/
def volumeRoot (stateDir volumeName : CString) : CString :=
  stateDir ++ 47 :: lit "snapshots" ++ 47 :: volumeName

/-- A state directory that is accepted is the value of the variable, or the default. -/
theorem stateDirectory_ok {env : Option CString} {dir : Field 240}
    (accepted : stateDirectory env = .ok dir) :
    dir.1 ≠ [] ∧ (dir.1 = lit "/var/lib/hwrun" ∨ env = some dir.1) := by
  cases env with
  | none =>
    obtain rfl := Except.ok.inj accepted
    exact ⟨by decide, .inl rfl⟩
  | some text =>
    cases text with
    | nil =>
      obtain rfl := Except.ok.inj accepted
      exact ⟨by decide, .inl rfl⟩
    | cons byte rest =>
      by_cases long : 240 ≤ (byte :: rest).length
      · have refused : stateDirectory (some (byte :: rest)) = .error enametoolong := if_pos long
        rw [refused] at accepted
        cases accepted
      · have copied : stateDirectory (some (byte :: rest)) = .ok (Field.copy (byte :: rest)) :=
          if_neg long
        rw [copied] at accepted
        obtain rfl := Except.ok.inj accepted
        have whole : (Field.copy (byte :: rest) : Field 240).1 = byte :: rest :=
          snprintf_eq (Nat.lt_of_not_le long)
        rw [whole]
        exact ⟨List.cons_ne_nil _ _, .inr rfl⟩

/-- The path of a snapshot is the directory of its volume, a slash and its name. -/
theorem snapshotPath_volumeRoot (ctx : Ctx) {volumeName snapshotName : CString}
    (volume : IsLabel volumeName) (name : IsLabel snapshotName) :
    snapshotPath ctx volumeName snapshotName =
      volumeRoot ctx.stateDir volumeName ++ 47 :: snapshotName := by
  rw [snapshotPath_eq ctx volume.fits name.fits, volumeRoot]

/-- It resolves to one component below the directory of its volume. -/
theorem resolve_volumeRoot (ctx : Ctx) {volumeName snapshotName : CString}
    (volume : IsLabel volumeName) (name : IsLabel snapshotName) :
    resolve ctx.cwd (snapshotPath ctx volumeName snapshotName) =
      resolve ctx.cwd (volumeRoot ctx.stateDir volumeName) ++ [snapshotName] := by
  rw [snapshotPath_volumeRoot ctx volume name,
    resolve_component (by simp [volumeRoot]) name.plain name.filled name.dot name.dots]

/-- Two snapshot directories of which one lies inside the other belong to the same snapshot. -/
theorem pair_of_overlap (ctx : Ctx) {volumeName snapshotName otherVolume other : CString}
    (volume : IsLabel volumeName) (name : IsLabel snapshotName)
    (volume' : IsLabel otherVolume) (name' : IsLabel other)
    (overlap : Overlap (resolve ctx.cwd (snapshotPath ctx volumeName snapshotName))
      (resolve ctx.cwd (snapshotPath ctx otherVolume other))) :
    (volumeName, snapshotName) = (otherVolume, other) := by
  rw [resolve_snapshotPath ctx volume name, resolve_snapshotPath ctx volume' name'] at overlap
  have same : snapshotRoot ctx ++ [volumeName, snapshotName] =
      snapshotRoot ctx ++ [otherVolume, other] := by
    rcases overlap with below | above
    · exact below.eq_of_length (by simp)
    · exact (above.eq_of_length (by simp)).symm
  have tail := List.append_cancel_left same
  rw [List.cons.injEq, List.cons.injEq] at tail
  rw [tail.1, tail.2.1]

/-- Every snapshot path is whole, lies directly below the directory of its volume, and shares
neither its text nor its place with that of another snapshot. -/
theorem snapshotPath_separate {env : Option CString} {ctx : Ctx} {dir : Field 240}
    (accepted : stateDirectory env = .ok dir) (state : ctx.stateDir = dir.1)
    {volumeName snapshotName : CString} (volume : storageValidLabel volumeName 128 = 0)
    (name : storageValidLabel snapshotName 128 = 0) :
    (dir.1 ++ 47 :: lit "snapshots" ++ 47 :: volumeName ++ 47 :: snapshotName).length < 512 ∧
    snapshotPath ctx volumeName snapshotName = volumeRoot dir.1 volumeName ++ 47 :: snapshotName ∧
    resolve ctx.cwd (snapshotPath ctx volumeName snapshotName) =
      resolve ctx.cwd (dir.1 ++ 47 :: lit "snapshots") ++ [volumeName, snapshotName] ∧
    resolve ctx.cwd (snapshotPath ctx volumeName snapshotName) =
      resolve ctx.cwd (volumeRoot dir.1 volumeName) ++ [snapshotName] ∧
    ∀ otherVolume other, storageValidLabel otherVolume 128 = 0 →
      storageValidLabel other 128 = 0 → (volumeName, snapshotName) ≠ (otherVolume, other) →
      snapshotPath ctx volumeName snapshotName ≠ snapshotPath ctx otherVolume other ∧
        ¬ Overlap (resolve ctx.cwd (snapshotPath ctx volumeName snapshotName))
          (resolve ctx.cwd (snapshotPath ctx otherVolume other)) := by
  have volumeLabel := storageValidLabel_ok volume
  have nameLabel := storageValidLabel_ok name
  have root : (lit "snapshots").length = 9 := by decide
  have dirShort := dir.2
  have volumeShort := volumeLabel.fits
  have nameShort := nameLabel.fits
  rw [← state]
  refine ⟨?_, snapshotPath_volumeRoot ctx volumeLabel nameLabel,
    resolve_snapshotPath ctx volumeLabel nameLabel, resolve_volumeRoot ctx volumeLabel nameLabel,
    ?_⟩
  · simp only [List.length_append, List.length_cons, root]
    rw [← state] at dirShort
    omega
  · intro otherVolume other otherAccepted accepted' different
    have otherLabel := storageValidLabel_ok otherAccepted
    have label := storageValidLabel_ok accepted'
    constructor
    · intro same
      have parts := snapshotPath_injective ctx volumeLabel nameLabel otherLabel label same
      exact different (by rw [parts.1, parts.2])
    · intro overlap
      exact different (pair_of_overlap ctx volumeLabel nameLabel otherLabel label overlap)

/-- Two snapshots whose names joined by a dash would be the same. -/
theorem snapshotPath_separate_dashes :
    snapshotPath defaultInit (lit "a-b") (lit "c") =
      volumeRoot (lit "/var/lib/hwrun") (lit "a-b") ++ 47 :: lit "c" ∧
    snapshotPath defaultInit (lit "a-b") (lit "c") ≠
      snapshotPath defaultInit (lit "a") (lit "b-c") := by
  have separate := @snapshotPath_separate none defaultInit (Field.copy (lit "/var/lib/hwrun")) rfl
    (by decide +kernel) (lit "a-b") (lit "c") (by decide +kernel) (by decide +kernel)
  exact ⟨separate.2.1, (separate.2.2.2.2 (lit "a") (lit "b-c") (by decide +kernel)
    (by decide +kernel) (by decide +kernel)).1⟩

end HwrunOs.Storage
