import HwrunOs.Library.Lookup
import HwrunOs.Storage.Reachable

/-!
# Which volume a name designates

Names and ids of volumes share one lookup. A name is checked against both when a volume is
created, and an id is drawn at random; as long as no drawn id is a name or id that is already
there, every string designates at most one volume.
-/

namespace HwrunOs.Storage

open HwrunOs.Bytes HwrunOs.Runs HwrunOs.Lookup

/-- The id that a call may draw is no name and no id of a registered volume. -/
def FreshId (ctx : Ctx) : Action × Host → Prop
  | (.createVolume _, host) =>
    ∀ volume ∈ ctx.volumes, volume.answers (storageGenId host.idBytes) = false
  | _ => True

instance (ctx : Ctx) : ∀ call, Decidable (FreshId ctx call)
  | (.createVolume _, host) =>
    inferInstanceAs (Decidable (∀ volume ∈ ctx.volumes,
      volume.answers (storageGenId host.idBytes) = false))
  | (.deleteVolume _, _) => inferInstanceAs (Decidable True)
  | (.unregisterVolume _, _) => inferInstanceAs (Decidable True)
  | (.snapshotCreate _ _, _) => inferInstanceAs (Decidable True)
  | (.snapshotRestore _ _, _) => inferInstanceAs (Decidable True)
  | (.snapshotDelete _, _) => inferInstanceAs (Decidable True)

/-- No two volumes share a name or a path, and no string is the name or id of two volumes. -/
structure VolumesKeyed (ctx : Ctx) : Prop where
  /-- Names do not repeat. -/
  names : (ctx.volumes.map Volume.name).Nodup
  /-- Paths do not repeat. -/
  paths : (ctx.volumes.map Volume.path).Nodup
  /-- A string designates at most one volume. -/
  single : ∀ nameOrId, ∀ first ∈ ctx.volumes, ∀ second ∈ ctx.volumes,
    first.answers nameOrId = true → second.answers nameOrId = true → first = second

/-- All operations given a key of a volume act on this volume: it is the one that is found, and
taking it out leaves the volumes that the key does not designate. -/
def ActsOnOne (ctx : Ctx) : Prop :=
  ∀ nameOrId, ∀ volume ∈ ctx.volumes, volume.answers nameOrId = true →
    storageFindVolume ctx nameOrId = some volume ∧
      ctx.volumes.eraseP (Volume.answers nameOrId) =
        ctx.volumes.filter fun other => !other.answers nameOrId

/-- In a keyed registry every key acts on one volume. -/
theorem VolumesKeyed.actsOnOne {ctx : Ctx} (keyed : VolumesKeyed ctx) : ActsOnOne ctx :=
  fun nameOrId _ listed answers =>
    find?_eraseP_of_unique (List.Nodup.of_map _ keyed.names) (keyed.single nameOrId) listed answers

/-- A registry without volumes is keyed. -/
theorem storageInit_volumesKeyed (cwd stateDir : CString) (dirFits : stateDir.length < 240) :
    VolumesKeyed (storageInit cwd stateDir dirFits) :=
  ⟨List.nodup_nil, List.nodup_nil, by simp [storageInit]⟩

/-- A sublist of the volumes stays keyed. -/
theorem VolumesKeyed.sublist {ctx next : Ctx} (keyed : VolumesKeyed ctx)
    (sub : next.volumes.Sublist ctx.volumes) : VolumesKeyed next where
  names := keyed.names.sublist (sub.map _)
  paths := keyed.paths.sublist (sub.map _)
  single nameOrId first left second right :=
    keyed.single nameOrId first (sub.mem left) second (sub.mem right)

/-- A new volume answers to its name and to its id. -/
theorem newVolume_answers {host : Host} {name path key : CString} {volumeDef : VolumeDef}
    (label : IsLabel name) :
    (newVolume host name path volumeDef).answers key = true ↔
      storageGenId host.idBytes = key ∨ name = key := by
  rw [Volume.answers, newVolume, snprintf_eq label.fits]
  simp

/-- A new volume with a fresh id, a free name and a free path keeps the volumes keyed. -/
theorem VolumesKeyed.create {ctx : Ctx} (keyed : VolumesKeyed ctx) {host : Host}
    {name path : CString} {volumeDef : VolumeDef} (label : IsLabel name)
    (accepted : IsBackendPath path) (free : storageFindVolume ctx name = none)
    (apart : ∀ other ∈ ctx.volumes, other.path ≠ path)
    (fresh : ∀ volume ∈ ctx.volumes, volume.answers (storageGenId host.idBytes) = false) :
    VolumesKeyed { ctx with volumes := newVolume host name path volumeDef :: ctx.volumes } := by
  have named : (newVolume host name path volumeDef).name = name := snprintf_eq label.fits
  have placed : (newVolume host name path volumeDef).path = path := snprintf_eq accepted.fits
  have unused : ∀ volume ∈ ctx.volumes, volume.answers name = false := by
    intro volume listed
    rw [Bool.eq_false_iff]
    exact List.find?_eq_none.mp free volume listed
  have other (key : CString) (old : Volume) (listed : old ∈ ctx.volumes)
      (answers : old.answers key = true) :
      ¬ (newVolume host name path volumeDef).answers key = true := by
    rw [newVolume_answers label]
    rintro (rfl | rfl)
    · simp [fresh old listed] at answers
    · simp [unused old listed] at answers
  refine ⟨?_, ?_, ?_⟩
  · rw [List.map_cons, named, List.nodup_cons]
    refine ⟨?_, keyed.names⟩
    intro taken
    obtain ⟨old, listed, same⟩ := List.mem_map.mp taken
    have missed := unused old listed
    simp [Volume.answers, same] at missed
  · rw [List.map_cons, placed, List.nodup_cons]
    refine ⟨?_, keyed.paths⟩
    intro taken
    obtain ⟨old, listed, same⟩ := List.mem_map.mp taken
    exact apart old listed same
  · intro key first left second right one two
    rcases List.mem_cons.mp left with rfl | left
    · rcases List.mem_cons.mp right with rfl | right
      · rfl
      · exact absurd one (other key second right two)
    · rcases List.mem_cons.mp right with rfl | right
      · exact absurd two (other key first left one)
      · exact keyed.single key first left second right one two

/-- A call with a fresh id keeps the volumes keyed. -/
theorem VolumesKeyed.step {ctx : Ctx} (keyed : VolumesKeyed ctx) {call : Action × Host}
    (fresh : FreshId ctx call) : VolumesKeyed (storageStep ctx call) := by
  have dropped {backend : Option CString} {next : Ctx} (change : Change ctx backend next)
      (noBackend : backend = none) : VolumesKeyed next := by
    cases change with
    | same => exact keyed
    | created host name path volumeDef label accepted free => cases noBackend
    | dropped nameOrId => exact keyed.sublist List.eraseP_sublist
    | taken host volume snapshotName label listed free => exact keyed.sublist (.refl _)
    | forgotten snapshotName => exact keyed.sublist (.refl _)
  obtain ⟨action, host⟩ := call
  cases action with
  | createVolume volumeDef =>
    rcases storageCreateVolume_cases host ctx volumeDef with
      same | ⟨name, path, -, label, accepted, free, apart, created⟩
    · rw [storageStep, perform, same]
      exact keyed
    · rw [storageStep, perform, created]
      exact keyed.create label accepted free apart fresh
  | deleteVolume nameOrId => exact dropped (storageStep_change ctx _) rfl
  | unregisterVolume nameOrId => exact dropped (storageStep_change ctx _) rfl
  | snapshotCreate nameOrId snapshotName => exact dropped (storageStep_change ctx _) rfl
  | snapshotRestore snapshotName targetVolume => exact dropped (storageStep_change ctx _) rfl
  | snapshotDelete snapshotName => exact dropped (storageStep_change ctx _) rfl

/-- In every run of calls that draw fresh ids, no two volumes ever share a name or a path, every
string designates at most one volume, and all operations given it act on this volume. -/
theorem volumes_keyed (cwd stateDir : CString) (dirFits : stateDir.length < 240)
    {calls : List (Action × Host)}
    (fresh : AllSteps storageStep FreshId (storageInit cwd stateDir dirFits) calls) :
    AllStates storageStep (fun ctx => VolumesKeyed ctx ∧ ActsOnOne ctx)
      (storageInit cwd stateDir dirFits) calls :=
  (allStates_of_steps (fun _ _ keyed fresh => keyed.step fresh)
    (storageInit_volumesKeyed cwd stateDir dirFits) fresh).mono
      fun _ keyed => ⟨keyed, keyed.actsOnOne⟩

/-- A host whose next id has the given digits. -/
def idHost (byte : UInt8) : Host := { quietHost with idBytes := fun _ => byte }

/-- A volume for everything under `/home`. -/
def homeDef : VolumeDef := ⟨some (lit "home"), some (lit "/home"), 0, 0, none⟩

/-- Two volumes are created, and the second is unregistered by its id. -/
def twoVolumes : List (Action × Host) :=
  [(.createVolume dataDef, idHost 1), (.createVolume homeDef, idHost 2),
    (.unregisterVolume (storageGenId fun _ => 2), quietHost)]

/-- The first volume is the one that stays. -/
theorem volumes_keyed_two :
    AllStates storageStep (fun ctx => VolumesKeyed ctx ∧ ActsOnOne ctx)
        (storageInit (lit "/") (lit "/var/lib/hwrun") (by decide)) twoVolumes ∧
      (run storageStep (storageInit (lit "/") (lit "/var/lib/hwrun") (by decide))
        twoVolumes).volumes.map Volume.name = [lit "data"] :=
  ⟨volumes_keyed (lit "/") (lit "/var/lib/hwrun") (by decide) (by decide +kernel),
    by decide +kernel⟩

end HwrunOs.Storage
