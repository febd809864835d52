import Mathlib.Logic.Function.Basic
import HwrunOs.Library.Lookup
import HwrunOs.Storage.Reachable

/-!
# Concurrent snapshots

`storage_snapshot_create` copies outside the lock: its check, every step of the copy, its
registration and every step of its clean-up are separate steps that those of other calls may come
between. So are the removal steps of `storage_snapshot_delete`. A registered snapshot keeps its
complete copy as long as no call passes the check for a snapshot that another call is still
creating; the clean-up goes by path, so two such calls are enough to lose one.
-/

namespace HwrunOs.Storage

open HwrunOs.Bytes HwrunOs.Paths HwrunOs.Runs HwrunOs.Lookup

/-! ## The steps -/

/-- A file of a directory tree: its relative name and its bytes. -/
abbrev Entry := CString × CString

/-- The files below a snapshot directory. -/
abbrev Contents := List Entry

/-- A file is written: a file of that name is replaced. -/
def writeEntry (contents : Contents) (entry : Entry) : Contents :=
  contents.filter (fun other => other.1 ≠ entry.1) ++ [entry]

/-- The complete copy of the files that reading a volume delivered. -/
def copyOf (source : List Entry) : Contents := source.foldl writeEntry []

/-- Where a call stands between its steps. -/
inductive Phase where
  /-- No call, or one that returned. -/
  | idle
  /-- The check passed and nothing is copied yet. -/
  | entered (target : Target) (name : CString) (source : List Entry)
  /-- `storage_copy_tree` runs, with the files still to copy. -/
  | copying (target : Target) (name : CString) (source rest : List Entry)
  /-- A failed call runs `storage_rm_rf` on its snapshot path. -/
  | cleaning (path : CString)
  /-- `storage_snapshot_delete` runs `storage_rm_rf` on the path of the record it dropped. -/
  | erasing (path : CString)

/-- The snapshot path a call works on. -/
def Phase.path : Phase → Option CString
  | .idle => none
  | .entered target _ _ => some target.snapPath
  | .copying target _ _ _ => some target.snapPath
  | .cleaning path => some path
  | .erasing path => some path

/-- The snapshot path that a call of `storage_snapshot_create` works on. -/
def Phase.creates : Phase → Option CString
  | .erasing _ => none
  | phase => phase.path

/-- The registry, the snapshot directories and the calls under way. -/
structure World where
  /-- The registry. -/
  ctx : Ctx
  /-- The directory at a path, when there is one. -/
  dirs : CString → Option Contents
  /-- What the call that registered the snapshot at a path was to copy. -/
  copied : CString → List Entry
  /-- Where each call stands. -/
  phases : Nat → Phase

/-- A call goes on. -/
def World.become (world : World) (call : Nat) (phase : Phase) : World :=
  { world with phases := Function.update world.phases call phase }

/-- A directory is written or removed. -/
def World.setDir (world : World) (path : CString) (contents : Option Contents) : World :=
  { world with dirs := Function.update world.dirs path contents }

/-- `lstat`: an existing snapshot directory is found, and elsewhere the host answers. -/
def World.lstat (world : World) (host : CString → Lstat) (path : CString) : Lstat :=
  if (world.dirs path).isSome then .directory else host path

/-- One step of one call. -/
inductive RaceAction where
  /-- `storage_snapshot_create` up to the end of its first lock, with what `lstat` answers and
  the files that reading the volume is going to deliver. -/
  | check (call : Nat) (nameOrId name : CString) (lstat : CString → Lstat) (source : List Entry)
  /-- The next step of the copy, and whether it succeeds. -/
  | copy (call : Nat) (succeeds : Bool)
  /-- The allocation of the record and the second lock. -/
  | register (call : Nat) (host : Host)
  /-- `storage_rm_rf` removes a file. -/
  | unlink (call : Nat) (name : CString)
  /-- `storage_rm_rf` ends: an empty directory is removed. -/
  | finish (call : Nat)
  /-- `storage_snapshot_delete` up to the end of its lock. -/
  | delete (call : Nat) (name : CString) (host : Host)
  /-- `storage_create_volume`. -/
  | createVolume (volumeDef : VolumeDef) (host : Host)
  /-- `storage_unregister_volume`. -/
  | unregisterVolume (nameOrId : CString) (host : Host)

/-- One step of `storage_copy_tree`: the directory first, then file by file. -/
def copyStep (world : World) (call : Nat) (succeeds : Bool) : World :=
  match world.phases call with
  | .entered target name source =>
    if succeeds then
      (world.setDir target.snapPath (some ((world.dirs target.snapPath).getD []))).become call
        (.copying target name source source)
    else world.become call (.cleaning target.snapPath)
  | .copying target name source (entry :: rest) =>
    if succeeds then
      (world.setDir target.snapPath
        (some (writeEntry ((world.dirs target.snapPath).getD []) entry))).become call
          (.copying target name source rest)
    else world.become call (.cleaning target.snapPath)
  | _ => world

/-- The end of `storage_snapshot_create` after a complete copy. -/
def registerStep (world : World) (call : Nat) (host : Host) : World :=
  match world.phases call with
  | .copying target name source [] =>
    if !host.alloc then world.become call (.cleaning target.snapPath)
    else
      let (next, rc) := snapshotRegister host world.ctx target name
      if rc ≠ 0 then world.become call (.cleaning target.snapPath)
      else
        { world with
          ctx := next
          copied := Function.update world.copied target.snapPath source
          phases := Function.update world.phases call .idle }
  | _ => world

/-- The system after a step. -/
def raceStep (world : World) : RaceAction → World
  | .check call nameOrId name lstat source =>
    match world.phases call, snapshotAdmit (world.lstat lstat) world.ctx nameOrId name with
    | .idle, .ok target => world.become call (.entered target name source)
    | _, _ => world
  | .copy call succeeds => copyStep world call succeeds
  | .register call host => registerStep world call host
  | .unlink call name =>
    match world.phases call with
    | .cleaning path | .erasing path =>
      world.setDir path ((world.dirs path).map (List.filter fun entry => entry.1 ≠ name))
    | _ => world
  | .finish call =>
    match world.phases call with
    | .cleaning path | .erasing path =>
      (if world.dirs path = some [] then world.setDir path none else world).become call .idle
    | _ => world
  | .delete call name host =>
    match world.phases call, snapshotForget host world.ctx name with
    | .idle, .ok (snapshot, next, rc) =>
      if rc = 0 then { world with ctx := next }.become call (.erasing snapshot.path)
      else { world with ctx := next }
    | _, _ => world
  | .createVolume volumeDef host =>
    { world with ctx := (storageCreateVolume host world.ctx volumeDef).ctx }
  | .unregisterVolume nameOrId host =>
    { world with ctx := (storageUnregisterVolume host world.ctx nameOrId).ctx }

/-! ## What should hold -/

/-- Every registered snapshot has its directory with the complete copy. -/
def Kept (world : World) : Prop :=
  ∀ snapshot ∈ world.ctx.snapshots,
    world.dirs snapshot.path = some (copyOf (world.copied snapshot.path))

instance (world : World) : Decidable (Kept world) :=
  inferInstanceAs (Decidable (∀ snapshot ∈ world.ctx.snapshots, _))

/-- No call passes the check for a snapshot that another call is creating. -/
def Exclusive (world : World) : RaceAction → Prop
  | .check _ nameOrId name lstat _ => ∀ target,
    snapshotAdmit (world.lstat lstat) world.ctx nameOrId name = .ok target →
      ∀ other, (world.phases other).creates ≠ some target.snapPath
  | _ => True

/-- No call is under way. -/
structure Quiet (world : World) : Prop where
  /-- Every call returned. -/
  idle : ∀ call, world.phases call = .idle
  /-- The registry is valid. -/
  valid : world.ctx.Valid
  /-- The registered snapshots have their copies. -/
  kept : Kept world

/-! ## The invariant -/

/-- No registered snapshot lies at a path. -/
def World.Free (world : World) (path : CString) : Prop :=
  ∀ snapshot ∈ world.ctx.snapshots, snapshot.path ≠ path

/-- A target as the first phase leaves it. -/
structure Target.Sound (ctx : Ctx) (target : Target) (snapshotName : CString) : Prop where
  /-- The volume had a label. -/
  volume : IsLabel target.volName
  /-- The snapshot has a label. -/
  name : IsLabel snapshotName
  /-- The path is the path of the pair. -/
  path : target.snapPath = snapshotPath ctx target.volName snapshotName

/-- What holds for a call in each phase. -/
def PhaseSound (world : World) : Phase → Prop
  | .idle => True
  | .entered target name _ => target.Sound world.ctx name ∧ world.Free target.snapPath ∧
    world.dirs target.snapPath = none
  | .copying target name source rest => target.Sound world.ctx name ∧
    world.Free target.snapPath ∧ ∃ written, source = written ++ rest ∧
      world.dirs target.snapPath = some (copyOf written)
  | .cleaning path => world.Free path
  | .erasing path => world.Free path ∧ (world.dirs path).isSome

/-- No two calls work on one path. -/
def Alone (phases : Nat → Phase) : Prop :=
  ∀ call other path, call ≠ other → (phases call).path = some path →
    (phases other).path ≠ some path

/-- Every path belongs to one registered snapshot or to one call. -/
structure Orderly (world : World) : Prop where
  /-- The registry is valid. -/
  valid : world.ctx.Valid
  /-- The registered snapshots have their copies. -/
  kept : Kept world
  /-- Every call is sound. -/
  sound : ∀ call, PhaseSound world (world.phases call)
  /-- No two calls work on one path. -/
  alone : Alone world.phases

/-- A quiet system is orderly. -/
theorem Quiet.orderly {world : World} (quiet : Quiet world) : Orderly world where
  valid := quiet.valid
  kept := quiet.kept
  sound := by
    intro call
    rw [quiet.idle call]
    trivial
  alone := by
    intro call other path _ works
    rw [quiet.idle call] at works
    cases works

/-- The path a sound call works on is free. -/
theorem Orderly.free {world : World} (orderly : Orderly world) {call : Nat} {path : CString}
    (works : (world.phases call).path = some path) : world.Free path := by
  have sound := orderly.sound call
  cases phase : world.phases call with
  | idle =>
    rw [phase] at works
    cases works
  | entered target name source =>
    rw [phase] at works sound
    obtain rfl := Option.some.inj works
    exact sound.2.1
  | copying target name source rest =>
    rw [phase] at works sound
    obtain rfl := Option.some.inj works
    exact sound.2.1
  | cleaning path =>
    rw [phase] at works sound
    obtain rfl := Option.some.inj works
    exact sound
  | erasing path =>
    rw [phase] at works sound
    obtain rfl := Option.some.inj works
    exact sound.1

/-- A call stays sound when the registry stays and its directory does. -/
theorem PhaseSound.frame {world next : World} {phase : Phase} (sound : PhaseSound world phase)
    (dir : next.ctx.stateDir = world.ctx.stateDir)
    (free : ∀ path ∈ phase.path, world.Free path → next.Free path)
    (dirs : ∀ path ∈ phase.path, next.dirs path = world.dirs path) : PhaseSound next phase := by
  have target {target : Target} {name : CString} (sound : target.Sound world.ctx name) :
      target.Sound next.ctx name :=
    ⟨sound.volume, sound.name, by rw [sound.path, snapshotPath, snapshotPath, dir]⟩
  cases phase with
  | idle => trivial
  | entered goal name source =>
    obtain ⟨made, unused, missing⟩ := sound
    exact ⟨target made, free _ rfl unused, by rw [dirs _ rfl, missing]⟩
  | copying goal name source rest =>
    obtain ⟨made, unused, written, split, present⟩ := sound
    exact ⟨target made, free _ rfl unused, written, split, by rw [dirs _ rfl, present]⟩
  | cleaning path => exact free path rfl sound
  | erasing path => exact ⟨free path rfl sound.1, by rw [dirs path rfl]; exact sound.2⟩

/-- The calls stay alone when one goes over to a path that no other works on. -/
theorem Alone.update {phases : Nat → Phase} (alone : Alone phases) {call : Nat} {phase : Phase}
    (others : ∀ other, other ≠ call → ∀ path ∈ phase.path, (phases other).path ≠ some path) :
    Alone (Function.update phases call phase) := by
  intro first second place different one two
  by_cases left : first = call
  · subst left
    rw [Function.update_self] at one
    rw [Function.update_of_ne (Ne.symm different)] at two
    exact others second (Ne.symm different) place one two
  · rw [Function.update_of_ne left] at one
    by_cases right : second = call
    · subst right
      rw [Function.update_self] at two
      exact others first left place two one
    · rw [Function.update_of_ne right] at two
      exact alone first second place different one two

/-- The calls stay sound when one goes over to a sound phase. -/
theorem sound_update {world : World} {phases : Nat → Phase} {call : Nat} {phase : Phase}
    (own : PhaseSound world phase)
    (others : ∀ other, other ≠ call → PhaseSound world (phases other)) :
    ∀ other, PhaseSound world (Function.update phases call phase other) := by
  intro other
  by_cases same : other = call
  · subst same
    rw [Function.update_self]
    exact own
  · rw [Function.update_of_ne same]
    exact others other same

/-- A call that goes on with the directory it works on disturbs no other call and no registered
snapshot. -/
theorem Orderly.own {world : World} (orderly : Orderly world) {call : Nat} {path : CString}
    {contents : Option Contents} {phase : Phase} (works : (world.phases call).path = some path)
    (stays : ∀ other ∈ phase.path, other = path)
    (sound : PhaseSound ((world.setDir path contents).become call phase) phase) :
    Orderly ((world.setDir path contents).become call phase) where
  valid := orderly.valid
  kept := by
    intro snapshot listed
    have other := orderly.free works snapshot listed
    change Function.update world.dirs path contents snapshot.path = _
    rw [Function.update_of_ne other]
    exact orderly.kept snapshot listed
  sound := by
    refine sound_update sound ?_
    intro other different
    refine (orderly.sound other).frame rfl (fun _ _ free => free) ?_
    intro place elsewhere
    have apart : place ≠ path := by
      rintro rfl
      exact orderly.alone call other place (Ne.symm different) works elsewhere
    exact Function.update_of_ne apart _ _
  alone := by
    refine orderly.alone.update ?_
    intro other different place same
    obtain rfl := stays place same
    exact orderly.alone call other place (Ne.symm different) works

/-- A call that goes on without touching a directory. -/
theorem Orderly.goOn {world : World} (orderly : Orderly world) {call : Nat} {path : CString}
    {phase : Phase} (works : (world.phases call).path = some path)
    (stays : ∀ other ∈ phase.path, other = path)
    (sound : PhaseSound (world.become call phase) phase) : Orderly (world.become call phase) := by
  have same : world.setDir path (world.dirs path) = world := by
    simp [World.setDir, Function.update_eq_self]
  have own : PhaseSound ((world.setDir path (world.dirs path)).become call phase) phase →
      Orderly ((world.setDir path (world.dirs path)).become call phase) :=
    orderly.own works stays
  rw [same] at own
  exact own sound

/-- A failing call goes over to its clean-up. -/
theorem Orderly.fail {world : World} (orderly : Orderly world) {call : Nat} {path : CString}
    (works : (world.phases call).path = some path) :
    Orderly (world.become call (.cleaning path)) := by
  refine orderly.goOn works ?_ (orderly.free works)
  intro other same
  exact (Option.some.inj same).symm

/-- A step of the copy. -/
theorem Orderly.copyStep {world : World} (orderly : Orderly world) (call : Nat)
    (succeeds : Bool) : Orderly (copyStep world call succeeds) := by
  have own := orderly.sound call
  unfold Storage.copyStep
  split
  · rename_i target name source phase
    have works : (world.phases call).path = some target.snapPath := by rw [phase, Phase.path]
    rw [phase] at own
    obtain ⟨made, unused, missing⟩ := own
    split
    · refine orderly.own works (fun other same => (Option.some.inj same).symm) ?_
      refine ⟨made, unused, [], rfl, ?_⟩
      change Function.update world.dirs target.snapPath _ target.snapPath = _
      rw [Function.update_self, missing]
      rfl
    · exact orderly.fail works
  · rename_i target name source entry rest phase
    have works : (world.phases call).path = some target.snapPath := by rw [phase, Phase.path]
    rw [phase] at own
    obtain ⟨made, unused, written, split, present⟩ := own
    split
    · refine orderly.own works (fun other same => (Option.some.inj same).symm) ?_
      refine ⟨made, unused, written ++ [entry], by rw [split]; simp, ?_⟩
      change Function.update world.dirs target.snapPath _ target.snapPath = _
      rw [Function.update_self, present, copyOf, copyOf, List.foldl_append]
      rfl
    · exact orderly.fail works
  · exact orderly

/-- The end of a call after its complete copy. -/
theorem Orderly.registerStep {world : World} (orderly : Orderly world) (call : Nat)
    (host : Host) : Orderly (registerStep world call host) := by
  have own := orderly.sound call
  unfold Storage.registerStep
  split
  · rename_i target name source phase
    have works : (world.phases call).path = some target.snapPath := by rw [phase, Phase.path]
    rw [phase] at own
    obtain ⟨made, unused, written, split, present⟩ := own
    rw [List.append_nil] at split
    subst split
    split
    · exact orderly.fail works
    · rcases snapshotRegister_cases host world.ctx target name with ⟨-, failed⟩ | ⟨free, added⟩
      · dsimp only
        rw [if_pos failed]
        exact orderly.fail works
      · rw [added]
        simp only [ne_eq, not_true_eq_false, if_false]
        have record := newSnapshot_eq host made.volume.fits made.name.fits made.path
        have placed : (newSnapshot host target name).path = target.snapPath := by rw [record]
        refine ⟨orderly.valid.register host made.volume made.name made.path free, ?_, ?_, ?_⟩
        · intro snapshot listed
          rcases List.mem_cons.mp listed with rfl | old
          · dsimp only
            rw [placed, present, Function.update_self]
          · have other := unused snapshot old
            dsimp only
            rw [Function.update_of_ne other]
            exact orderly.kept snapshot old
        · refine sound_update trivial ?_
          intro other different
          refine (orderly.sound other).frame rfl ?_ (fun _ _ => rfl)
          intro place elsewhere free snapshot listed
          rcases List.mem_cons.mp listed with rfl | old
          · rw [placed]
            rintro rfl
            exact orderly.alone call other _ (Ne.symm different) works elsewhere
          · exact free snapshot old
        · exact orderly.alone.update fun _ _ path none => by cases none
  · exact orderly

/-- The check of a call for a snapshot that no other call is creating. -/
theorem Orderly.enter {world : World} (orderly : Orderly world) {call : Nat}
    {nameOrId name : CString} {lstat : CString → Lstat} {source : List Entry} {target : Target}
    (admitted : snapshotAdmit (world.lstat lstat) world.ctx nameOrId name = .ok target)
    (exclusive : ∀ other, (world.phases other).creates ≠ some target.snapPath) :
    Orderly (world.become call (.entered target name source)) := by
  obtain ⟨label, checked⟩ := snapshotAdmit_ok admitted
  have label := storageValidLabel_ok label
  obtain ⟨volume, found, free, missing, rfl⟩ := snapshotCheck_ok checked
  have volumeLabel := (orderly.valid.volumes volume (List.mem_of_find?_eq_some found)).name
  have fits : snprintf 128 volume.name = volume.name := snprintf_eq volumeLabel.fits
  rw [fits]
  rw [fits] at exclusive
  dsimp only at exclusive
  have absent : world.dirs (snapshotPath world.ctx volume.name name) = none := by
    cases present : world.dirs (snapshotPath world.ctx volume.name name) with
    | none => rfl
    | some contents =>
      have found : world.lstat lstat (snapshotPath world.ctx volume.name name) = .directory := by
        rw [World.lstat, present]
        rfl
      rcases missing with missing | ⟨rc, failed⟩
      · rw [found] at missing
        cases missing
      · rw [found] at failed
        cases failed
  have unused : world.Free (snapshotPath world.ctx volume.name name) := by
    intro snapshot listed same
    have valid := orderly.valid.snapshots snapshot listed
    rw [valid.path] at same
    obtain ⟨one, two⟩ := snapshotPath_injective world.ctx valid.volume valid.name volumeLabel
      label same
    have missed := List.find?_eq_none.mp free snapshot listed
    simp [one, two] at missed
  -- A delete that still erases the path would still have its directory.
  have others : ∀ other, (world.phases other).path ≠
      some (snapshotPath world.ctx volume.name name) := by
    intro other works
    have created := exclusive other
    have sound := orderly.sound other
    cases phase : world.phases other with
    | idle =>
      rw [phase] at works
      cases works
    | entered goal _ _ =>
      rw [phase] at works created
      exact created works
    | copying goal _ _ _ =>
      rw [phase] at works created
      exact created works
    | cleaning path =>
      rw [phase] at works created
      exact created works
    | erasing path =>
      rw [phase] at works sound
      obtain rfl := Option.some.inj works
      have present := sound.2
      rw [absent] at present
      cases present
  refine ⟨orderly.valid, orderly.kept, ?_, ?_⟩
  · refine sound_update ⟨⟨volumeLabel, label, rfl⟩, unused, absent⟩ ?_
    intro other _
    exact (orderly.sound other).frame rfl (fun _ _ free => free) (fun _ _ => rfl)
  · refine orderly.alone.update ?_
    intro other _ path same
    obtain rfl := Option.some.inj same
    exact others other

/-- A snapshot whose record was dropped belongs to the call that erases it. -/
theorem Orderly.forget {world : World} (orderly : Orderly world) (call : Nat) {name : CString}
    {snapshot : Snapshot} (found : storageFindSnapshot world.ctx name = some snapshot) :
    Orderly { world with ctx := { world.ctx with
      snapshots := world.ctx.snapshots.eraseP (Snapshot.answers name) } } ∧
    Orderly (World.become { world with ctx := { world.ctx with
      snapshots := world.ctx.snapshots.eraseP (Snapshot.answers name) } } call
        (.erasing snapshot.path)) := by
  have listed : snapshot ∈ world.ctx.snapshots := List.mem_of_find?_eq_some found
  have sub : (world.ctx.snapshots.eraseP (Snapshot.answers name)).Sublist world.ctx.snapshots :=
    List.eraseP_sublist
  have change : Change world.ctx none { world.ctx with
      snapshots := world.ctx.snapshots.eraseP (Snapshot.answers name) } := .forgotten name
  have valid := orderly.valid.change change
  have kept : ∀ other ∈ world.ctx.snapshots.eraseP (Snapshot.answers name),
      world.dirs other.path = some (copyOf (world.copied other.path)) :=
    fun other member => orderly.kept other (sub.mem member)
  have others (next : World) (dir : next.ctx.stateDir = world.ctx.stateDir)
      (fewer : next.ctx.snapshots = world.ctx.snapshots.eraseP (Snapshot.answers name))
      (dirs : next.dirs = world.dirs) (other : Nat) : PhaseSound next (world.phases other) := by
    refine (orderly.sound other).frame dir ?_ (fun _ _ => by rw [dirs])
    intro path _ free member remains
    rw [fewer] at remains
    exact free member (sub.mem remains)
  have unused : ∀ other ∈ world.ctx.snapshots.eraseP (Snapshot.answers name),
      other.path ≠ snapshot.path := by
    intro other remains same
    have first := orderly.valid.snapshots other (sub.mem remains)
    have second := orderly.valid.snapshots snapshot listed
    rw [first.path, second.path] at same
    obtain ⟨volume, name⟩ := snapshotPath_injective world.ctx first.volume first.name
      second.volume second.name same
    exact key_ne_of_mem_eraseP orderly.valid.pairs found remains (by rw [volume, name])
  refine ⟨⟨valid, kept, others _ rfl rfl rfl, orderly.alone⟩, valid, kept, ?_, ?_⟩
  · refine sound_update ⟨unused, ?_⟩ ?_
    · change (world.dirs snapshot.path).isSome
      rw [orderly.kept snapshot listed]
      rfl
    · intro other _
      have kept := others (World.become { world with ctx := { world.ctx with
        snapshots := world.ctx.snapshots.eraseP (Snapshot.answers name) } } call
          (.erasing snapshot.path)) rfl rfl rfl other
      exact kept
  · refine orderly.alone.update ?_
    intro other _ path same works
    obtain rfl := Option.some.inj same
    exact orderly.free works snapshot listed rfl

/-- Removing a file from the directory a call cleans up or erases. -/
theorem Orderly.unlink {world : World} (orderly : Orderly world) {call : Nat} {path : CString}
    {phase : Phase} (stands : world.phases call = phase)
    (removing : phase = .cleaning path ∨ phase = .erasing path) (name : CString) :
    Orderly (world.setDir path
      ((world.dirs path).map (List.filter fun entry => entry.1 ≠ name))) := by
  have works : (world.phases call).path = some path := by
    rcases removing with rfl | rfl <;> rw [stands] <;> rfl
  have same : world.setDir path ((world.dirs path).map (List.filter fun entry => entry.1 ≠ name)) =
      (world.setDir path ((world.dirs path).map
        (List.filter fun entry => entry.1 ≠ name))).become call phase := by
    rw [World.become, ← stands]
    simp [World.setDir]
  have sound := orderly.sound call
  rw [same]
  rcases removing with rfl | rfl
  · refine orderly.own works (fun other same => (Option.some.inj same).symm) ?_
    exact orderly.free works
  · refine orderly.own works (fun other same => (Option.some.inj same).symm) ?_
    rw [stands] at sound
    refine ⟨orderly.free works, ?_⟩
    change (Function.update world.dirs path _ path).isSome
    rw [Function.update_self, Option.isSome_map]
    exact sound.2

/-- The end of a clean-up or of an erasure. -/
theorem Orderly.finish {world : World} (orderly : Orderly world) {call : Nat} {path : CString}
    (works : (world.phases call).path = some path) :
    Orderly ((if world.dirs path = some [] then world.setDir path none else world).become call
      .idle) := by
  split
  · exact orderly.own works (fun other none => by cases none) trivial
  · exact orderly.goOn works (fun other none => by cases none) trivial

/-- A change of the volumes disturbs no snapshot. -/
theorem Orderly.volumes {world : World} (orderly : Orderly world) {next : Ctx}
    (valid : next.Valid) (dir : next.stateDir = world.ctx.stateDir)
    (snapshots : next.snapshots = world.ctx.snapshots) :
    Orderly { world with ctx := next } where
  valid := valid
  kept := by
    intro snapshot listed
    rw [snapshots] at listed
    exact orderly.kept snapshot listed
  sound := by
    intro call
    refine (orderly.sound call).frame dir ?_ (fun _ _ => rfl)
    intro path _ free snapshot listed
    change snapshot ∈ next.snapshots at listed
    rw [snapshots] at listed
    exact free snapshot listed
  alone := orderly.alone

/-- Every step that keeps the calls exclusive keeps the system orderly. -/
theorem Orderly.step {world : World} (orderly : Orderly world) {action : RaceAction}
    (exclusive : Exclusive world action) : Orderly (raceStep world action) := by
  cases action with
  | check call nameOrId name lstat source =>
    simp only [raceStep]
    split
    · rename_i target _ admitted
      exact orderly.enter admitted (exclusive target admitted)
    · exact orderly
  | copy call succeeds => exact orderly.copyStep call succeeds
  | register call host => exact orderly.registerStep call host
  | unlink call name =>
    simp only [raceStep]
    split
    · rename_i path phase
      exact orderly.unlink phase (.inl rfl) name
    · rename_i path phase
      exact orderly.unlink phase (.inr rfl) name
    · exact orderly
  | finish call =>
    simp only [raceStep]
    split
    · rename_i path phase
      exact orderly.finish (by rw [phase]; rfl)
    · rename_i path phase
      exact orderly.finish (by rw [phase]; rfl)
    · exact orderly
  | delete call name host =>
    simp only [raceStep]
    split
    · rename_i snapshot next rc _ forgotten
      obtain ⟨found, rfl⟩ := snapshotForget_ok forgotten
      split
      · exact (orderly.forget call found).2
      · exact (orderly.forget call found).1
    · exact orderly
  | createVolume volumeDef host =>
    obtain ⟨dir, snapshots⟩ := storageCreateVolume_snapshots host world.ctx volumeDef
    exact orderly.volumes (orderly.valid.change (storageCreateVolume_change host _ volumeDef)) dir
      snapshots
  | unregisterVolume nameOrId host =>
    obtain ⟨dir, snapshots⟩ := storageUnregisterVolume_snapshots host world.ctx nameOrId
    exact orderly.volumes (orderly.valid.change (storageUnregisterVolume_change host _ nameOrId))
      dir snapshots

/-- In every interleaving in which no call passes the check for a snapshot that another call is
creating, every registered snapshot keeps its directory with the complete copy until
`storage_snapshot_delete` drops its record. -/
theorem snapshots_kept {world : World} (quiet : Quiet world) {actions : List RaceAction}
    (exclusive : AllSteps raceStep Exclusive world actions) :
    AllStates raceStep Kept world actions :=
  (allStates_of_steps (fun _ _ orderly exclusive => orderly.step exclusive) quiet.orderly
    exclusive).mono fun _ orderly => orderly.kept

/-- A system with one volume and no snapshot. -/
def dataWorld : World where
  ctx := storageStep defaultInit (.createVolume dataDef, quietHost)
  dirs _ := none
  copied _ := []
  phases _ := .idle

/-- That system is quiet. -/
theorem dataWorld_quiet : Quiet dataWorld where
  idle _ := rfl
  valid := (storageInit_valid _ _ _).change (storageStep_change _ _)
  kept := by decide +kernel

/-- The backend directory exists. -/
def dataLstat (path : CString) : Lstat := if path = lit "/data" then .directory else .missing

/-- The volume holds one file. -/
def dataFiles : List Entry := [(lit "file", lit "contents")]

/-- The steps of one call up to its registration. -/
def createSteps (call : Nat) (name : CString) : List RaceAction :=
  [.check call (lit "data") name dataLstat dataFiles, .copy call true, .copy call true,
    .register call quietHost]

/-- A snapshot that is created, deleted and removed. -/
theorem snapshots_kept_single : AllStates raceStep Kept dataWorld
    (createSteps 0 (lit "daily") ++ [.delete 0 (lit "daily") quietHost, .unlink 0 (lit "file"),
      .finish 0]) := by
  refine snapshots_kept dataWorld_quiet ⟨?_, trivial, trivial, trivial, trivial, trivial, trivial,
    trivial⟩
  intro target _ other same
  cases same

/-- Two calls for one snapshot both pass the check; the one that comes second to the registration
removes the directory of the other. -/
theorem race_loses_snapshot : ¬ AllStates raceStep Kept dataWorld
    [.check 0 (lit "data") (lit "daily") dataLstat dataFiles,
      .check 1 (lit "data") (lit "daily") dataLstat dataFiles,
      .copy 0 true, .copy 0 true, .copy 1 true, .copy 1 true,
      .register 0 quietHost, .register 1 quietHost, .unlink 1 (lit "file"), .finish 1] := by
  intro kept
  have last := kept.last
  revert last
  decide +kernel

end HwrunOs.Storage
