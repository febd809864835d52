import HwrunOs.Hap.Disk
import HwrunOs.Library.FirstFit

/-!
# The mounts of a disk

The source of a mount can begin with the name of another disk: `loop10` begins with `loop1`. So a
mount is given to the disk that it belongs to as long as every disk in front of that one, whose
name it begins with, has a mount of its own already.
-/

namespace HwrunOs.Hap

open HwrunOs.Bytes HwrunOs.FirstFit HwrunOs.Fsp

/-! ## The machine -/

/-- The block devices, the files that describe them, the mounts and what `statvfs` says. -/
structure Machine where
  /-- The entries of `/sys/block`. -/
  names : List CString
  /-- A directory has no entry twice. -/
  distinct : names.Nodup
  /-- The mounts. -/
  mounts : List DiskMount
  /-- The files. -/
  files : Files
  /-- The mount table is among them. -/
  printed : files (lit "/proc/mounts") = some (diskMounts mounts)
  /-- `statvfs`. -/
  statvfs : CString → Option Statvfs

namespace Machine

variable (machine : Machine)

/-- What `hap_disk_probe` returns. -/
def probe : List DiskDevice := hapDiskProbe (some machine.names) machine.files machine.statvfs

/-- The devices for which there is a record: the first 32 that have a size. -/
def listed : List CString :=
  (machine.names.filter fun name => (hapDisk machine.files name).isSome).take 32

/-- A mount can be inspected. -/
def inspects (mount : DiskMount) : Bool := (hapStatMount machine.statvfs mount.target).isSome

end Machine

/-- A mount belongs to a device. -/
def owns (name : CString) (mount : DiskMount) : Bool := ownsSource name mount.source

/-- The source of a mount, as it is read, begins with the name of a device. -/
def begins (name : CString) (mount : DiskMount) : Bool :=
  hapMountMatches (snprintf 256 (mangle mount.source)) name

/-- What is recorded for a device is that of a mount of its own, and a device with such a mount,
if it can be inspected, has one. -/
structure DisksExact (machine : Machine) : Prop where
  /-- What is recorded. -/
  recorded : ∀ dev ∈ machine.probe,
    (dev.mountPoint.1 = [] ∧ dev.fsType.1 = [] ∧ dev.usage = .zero) ∨
    ∃ mount ∈ machine.mounts, owns dev.name.1 mount = true ∧ dev.mountPoint.1 = mount.target ∧
      dev.fsType.1 = mount.fstype ∧
      hapStatMount machine.statvfs mount.target = some dev.usage
  /-- Which devices have a mount. -/
  complete : ∀ name ∈ machine.names, ∀ mount ∈ machine.mounts, owns name mount = true →
    machine.inspects mount = true →
      ∃ dev ∈ machine.probe, dev.name.1 = name ∧ dev.mountPoint.1 ≠ []

/-! ## When it holds -/

/-- The first three words of the next mount are within the first 8191 bytes. -/
def Seen (earlier : List DiskMount) (mount : DiskMount) : Prop :=
  (diskMounts earlier).length + mount.head.length ≤ 8191

/-- The mount point is printed as it is, and it and the type fit their fields. -/
def Readable (mount : DiskMount) : Prop :=
  (∀ byte ∈ mount.target, byte ≠ 32 ∧ ¬ Special byte) ∧ mount.target.length < 256 ∧
    mount.fstype.length < 32

instance (byte : UInt8) : Decidable (Special byte) :=
  inferInstanceAs (Decidable (byte = 9 ∨ byte = 10 ∨ byte = 92))

instance (earlier : List DiskMount) (mount : DiskMount) : Decidable (Seen earlier mount) :=
  inferInstanceAs (Decidable (_ ≤ _))

instance (mount : DiskMount) : Decidable (Readable mount) :=
  inferInstanceAs (Decidable (_ ∧ _ ∧ _))

namespace Machine

variable (machine : Machine)

/-- The first device that a mount begins with, among those that have no earlier mount of their
own that can be inspected. -/
def first (earlier : List DiskMount) (mount : DiskMount) : Option CString :=
  next begins owns machine.listed (earlier.filter machine.inspects) mount

/-- A mount that begins with such a device can be read and belongs to the first of them, unless it
cannot be inspected; and none of the others it belongs to waits for one. -/
def MountsClear : List DiskMount → List DiskMount → Prop
  | _, [] => True
  | earlier, mount :: rest =>
    (∀ name ∈ machine.first earlier mount, Seen earlier mount ∧ Readable mount ∧
      (machine.inspects mount = true → owns name mount = true)) ∧
    (machine.inspects mount = true → ∀ name ∈ machine.listed,
      had owns (earlier.filter machine.inspects) name = false → owns name mount = true →
        machine.first earlier mount = some name) ∧
    MountsClear (earlier ++ [mount]) rest

/-- The names fit their fields, the devices with mounts of their own are listed, and all mounts are
clear. -/
structure Clear : Prop where
  /-- The names fit. -/
  short : ∀ name ∈ machine.listed, name.length < 64
  /-- Which devices are listed. -/
  reached : ∀ name ∈ machine.names, ∀ mount ∈ machine.mounts, owns name mount = true →
    machine.inspects mount = true → name ∈ machine.listed
  /-- The mounts are clear. -/
  clear : machine.MountsClear [] machine.mounts

/-- Nothing is cut off, no mount covers another, and no device is named like a partition of
another. -/
structure Tidy : Prop where
  /-- Every device is listed, and its name fits. -/
  names : machine.listed = machine.names ∧ ∀ name ∈ machine.names, name.length < 64
  /-- The mount table fits its buffer. -/
  text : (diskMounts machine.mounts).length ≤ 8191
  /-- The mounts can be read. -/
  readable : ∀ mount ∈ machine.mounts, Readable mount ∧ mangle mount.source = mount.source ∧
    mount.source.length < 256
  /-- No two mounts have one mount point. -/
  targets : (machine.mounts.map DiskMount.target).Nodup
  /-- A mount belongs to at most one device. -/
  single : ∀ name ∈ machine.names, ∀ other ∈ machine.names, ∀ mount ∈ machine.mounts,
    owns name mount = true → owns other mount = true → name = other

end Machine

/-! ## The devices as slots -/

namespace Machine

variable (machine : Machine)

/-- The record of a device before the mounts are read. -/
def bare (name : CString) : DiskDevice :=
  (hapDisk machine.files name).getD (diskRecord machine.files name [])

/-- The record of a device with the mount it was given. -/
def render (slot : CString × Option DiskMount) : DiskDevice :=
  slot.2.elim (machine.bare slot.1) fun mount =>
    (machine.bare slot.1).mounted mount.target mount.fstype
      ((hapStatMount machine.statvfs mount.target).getD .zero)

/-- The record of a device has its name and nothing of a mount. -/
theorem bare_record (name : CString) :
    ∃ size, machine.bare name = diskRecord machine.files name size := by
  unfold bare hapDisk
  split
  · exact ⟨[], rfl⟩
  · cases hapReadFile machine.files (sysBlockPath name "/size") 256 with
    | none => exact ⟨[], rfl⟩
    | some size => exact ⟨size, rfl⟩

/-- The records that the mounts are given to. -/
theorem devices_listed :
    (machine.names.filterMap (hapDisk machine.files)).take 32 =
      (vacant machine.listed).map machine.render := by
  have records : machine.names.filterMap (hapDisk machine.files) =
      (machine.names.filter fun name => (hapDisk machine.files name).isSome).map machine.bare := by
    induction machine.names with
    | nil => rfl
    | cons name names ih =>
      cases found : hapDisk machine.files name with
      | none =>
        rw [List.filterMap_cons_none found, List.filter_cons_of_neg (by simp [found]), ih]
      | some dev =>
        have same : machine.bare name = dev := by rw [bare, found, Option.getD_some]
        rw [List.filterMap_cons_some found, List.filter_cons_of_pos (by simp [found]),
          List.map_cons, ih, same]
  rw [records, vacant, List.map_map, ← List.map_take]
  rfl

/-- The name of a record. -/
theorem render_name {slot : CString × Option DiskMount} (short : slot.1.length < 64) :
    (machine.render slot).name.1 = slot.1 := by
  obtain ⟨size, record⟩ := machine.bare_record slot.1
  have name : (machine.bare slot.1).name.1 = slot.1 := by
    rw [record]
    exact snprintf_eq short
  rw [render]
  cases slot.2 with
  | none => exact name
  | some mount => exact name

/-- A record has a mount point exactly when the slot has a mount. -/
theorem render_mountPoint (slot : CString × Option DiskMount) :
    (machine.render slot).mountPoint.1.isEmpty = slot.2.isNone := by
  obtain ⟨size, record⟩ := machine.bare_record slot.1
  rw [render]
  cases slot.2 with
  | none =>
    rw [Option.elim_none, record]
    rfl
  | some mount =>
    rw [Option.elim_some]
    exact List.isEmpty_eq_false_iff.mpr (copy_ne_nil mount.target_filled)

end Machine

/-! ## One mount -/

namespace Machine

variable (machine : Machine)

/-- A device is taken by a mount in the table as its slot is. -/
theorem takes_render {slot : CString × Option DiskMount} (short : slot.1.length < 64)
    (mount : DiskMount) :
    (hapMountMatches (snprintf 256 (mangle mount.source)) (machine.render slot).name.1 &&
      (machine.render slot).mountPoint.1.isEmpty) = takes begins mount slot := by
  rw [machine.render_name short, machine.render_mountPoint, takes, Bool.and_comm]
  rfl

/-- A mount that no slot takes leaves the records alone, also when its line is cut off. -/
theorem mountDevice_missed {slots : List (CString × Option DiskMount)}
    (short : ∀ slot ∈ slots, slot.1.length < 64) {mount : DiskMount}
    (missed : ∀ slot ∈ slots, takes begins mount slot = false) {fields : MountFields}
    (source : fields.fsdev = [] ∨ fields.fsdev = snprintf 256 (mangle mount.source)) :
    mountDevice machine.statvfs fields (slots.map machine.render) = slots.map machine.render := by
  induction slots with
  | nil => rfl
  | cons slot rest ih =>
    have here : (hapMountMatches fields.fsdev (machine.render slot).name.1 &&
        (machine.render slot).mountPoint.1.isEmpty) = false := by
      rcases source with none_ | whole
      · rw [none_]
        rfl
      · rw [whole, machine.takes_render (short slot List.mem_cons_self)]
        exact missed slot List.mem_cons_self
    have later := ih (fun other found => short other (List.mem_cons_of_mem _ found))
      fun other found => missed other (List.mem_cons_of_mem _ found)
    rw [List.map_cons, mountDevice, here, if_neg Bool.false_ne_true, later]

/-- A mount that can be read is given to the record of the slot that takes it, if it can be
inspected. -/
theorem mountDevice_offer {slots : List (CString × Option DiskMount)}
    (short : ∀ slot ∈ slots, slot.1.length < 64) (mount : DiskMount) :
    mountDevice machine.statvfs
        ⟨snprintf 256 (mangle mount.source), mount.target, mount.fstype⟩
        (slots.map machine.render) =
      (if machine.inspects mount then offer begins mount slots else slots).map machine.render := by
  induction slots with
  | nil => cases machine.inspects mount <;> rfl
  | cons slot rest ih =>
    have later := ih fun other found => short other (List.mem_cons_of_mem _ found)
    have here := machine.takes_render (short slot List.mem_cons_self) mount
    rw [List.map_cons, mountDevice, here]
    cases taken : takes begins mount slot with
    | true =>
      have free : slot.2 = none := by
        rw [takes, Bool.and_eq_true, Option.isNone_iff_eq_none] at taken
        exact taken.1
      have empty : machine.render slot = machine.bare slot.1 := by rw [render, free]; rfl
      rw [if_pos rfl, empty]
      cases usage : hapStatMount machine.statvfs mount.target with
      | none =>
        have unseen : machine.inspects mount = false := by rw [inspects, usage]; rfl
        rw [unseen, if_neg Bool.false_ne_true, List.map_cons, empty]
        rfl
      | some known =>
        have seen : machine.inspects mount = true := by rw [inspects, usage]; rfl
        have given : offer begins mount (slot :: rest) = (slot.1, some mount) :: rest := by
          rw [takes] at taken
          rw [offer, taken, if_pos rfl]
        rw [seen, if_pos rfl, given, List.map_cons, render, Option.elim_some, usage]
        rfl
    | false =>
      have passed : offer begins mount (slot :: rest) = slot :: offer begins mount rest := by
        rw [takes] at taken
        rw [offer, taken, if_neg Bool.false_ne_true]
      rw [if_neg Bool.false_ne_true, later, passed]
      cases machine.inspects mount <;> rfl

/-- What is read of a mount behind others, if anything is left of it. -/
def part (earlier : List DiskMount) (mount : DiskMount) : List CString :=
  if 8191 - (diskMounts earlier).length = 0 then []
  else [mount.line.take (8191 - (diskMounts earlier).length)]

/-- A mount that is seen and can be read, or that no slot takes, is offered to the slots when it
can be inspected. -/
theorem part_offer {slots : List (CString × Option DiskMount)}
    (short : ∀ slot ∈ slots, slot.1.length < 64) {earlier : List DiskMount} {mount : DiskMount}
    (either : (Seen earlier mount ∧ Readable mount) ∨
      ∀ slot ∈ slots, takes begins mount slot = false) :
    (part earlier mount).foldl (mountLine machine.statvfs) (slots.map machine.render) =
      (if machine.inspects mount then offer begins mount slots else slots).map machine.render := by
  rcases either with ⟨seen, plain, target, fstype⟩ | missed
  · have filled : 0 < mount.head.length := by
      rw [DiskMount.head, List.length_append, List.length_cons]
      omega
    unfold Seen at seen
    obtain ⟨more, room⟩ := Nat.exists_eq_add_of_le (show mount.head.length ≤
      8191 - (diskMounts earlier).length by omega)
    have text : mount.line.take (8191 - (diskMounts earlier).length) =
        mount.head ++ mount.details.take more := by
      rw [DiskMount.line, List.take_append, List.take_of_length_le (by omega), room,
        Nat.add_sub_cancel_left]
    have fields := mount.fields_head (mount.details.take more)
    rw [mangle_plain plain, snprintf_eq target,
      snprintf_eq (show mount.fstype.length < 64 by omega)] at fields
    rw [part, if_neg (by omega), text, List.foldl_cons, List.foldl_nil, mountLine, fields]
    dsimp only
    rw [if_neg mount.target_filled, machine.mountDevice_offer short]
  · rw [offer_missed missed, ite_self, part]
    split
    · rfl
    · rw [List.foldl_cons, List.foldl_nil, mountLine]
      split
      · rfl
      · exact machine.mountDevice_missed short missed (mount.fields_take _)

/-- The mount table of more mounts. -/
theorem diskMounts_length (earlier rest : List DiskMount) :
    (diskMounts (earlier ++ rest)).length =
      (diskMounts earlier).length + (diskMounts rest).length := by
  rw [diskMounts, List.map_append, List.flatMap_append, List.length_append]
  rfl

/-- One more line. -/
theorem diskMounts_snoc (earlier : List DiskMount) (mount : DiskMount) :
    (diskMounts (earlier ++ [mount])).length =
      (diskMounts earlier).length + (mount.line.length + 1) := by
  rw [diskMounts_length]
  simp [diskMounts]

/-- The lines of the mounts behind others. -/
theorem cutLines_cons (earlier : List DiskMount) (mount : DiskMount) (rest : List DiskMount) :
    cutLines (8191 - (diskMounts earlier).length) ((mount :: rest).map DiskMount.line) =
      part earlier mount ++
        cutLines (8191 - (diskMounts (earlier ++ [mount])).length) (rest.map DiskMount.line) := by
  rw [diskMounts_snoc, List.map_cons, cutLines, part, Nat.sub_sub]

/-! ## All mounts -/

/-- The places do not change. -/
theorem offered_short {slots : List (CString × Option DiskMount)}
    (short : ∀ slot ∈ slots, slot.1.length < 64) (mount : DiskMount) :
    ∀ slot ∈ (if machine.inspects mount then offer begins mount slots else slots),
      slot.1.length < 64 := by
  intro slot there
  split at there
  · have listed := List.mem_map_of_mem (f := Prod.fst) there
    rw [offer_places] at listed
    obtain ⟨other, member, same⟩ := List.mem_map.mp listed
    rw [← same]
    exact short other member
  · exact short slot there

variable {machine}

/-- The records when all mounts are clear: they are those of the slots that the mounts are offered
to, which are settled and hold only mounts that can be read. -/
theorem MountsClear.run {earlier rest : List DiskMount} {slots : List (CString × Option DiskMount)}
    (clear : machine.MountsClear earlier rest) (distinct : machine.listed.Nodup)
    (short : ∀ slot ∈ slots, slot.1.length < 64)
    (settled : Settled owns machine.listed slots (earlier.filter machine.inspects))
    (readable : ∀ slot ∈ slots, ∀ mount ∈ slot.2, Readable mount) :
    ∃ final : List (CString × Option DiskMount),
      (cutLines (8191 - (diskMounts earlier).length) (rest.map DiskMount.line)).foldl
          (mountLine machine.statvfs) (slots.map machine.render) = final.map machine.render ∧
        (∀ slot ∈ final, slot.1.length < 64) ∧
        Settled owns machine.listed final ((earlier ++ rest).filter machine.inspects) ∧
        ∀ slot ∈ final, ∀ mount ∈ slot.2, Readable mount := by
  induction rest generalizing earlier slots with
  | nil =>
    rw [List.append_nil]
    exact ⟨slots, rfl, short, settled, readable⟩
  | cons mount rest ih =>
    obtain ⟨owner, only, later⟩ := clear
    have either : (Seen earlier mount ∧ Readable mount) ∨
        ∀ slot ∈ slots, takes begins mount slot = false := by
      cases found : machine.first earlier mount with
      | none => exact .inr (settled.missed found)
      | some name => exact .inl ⟨(owner name found).1, (owner name found).2.1⟩
    have offered := machine.part_offer short either
    have shorter := machine.offered_short short mount
    rw [cutLines_cons, List.foldl_append, offered]
    have whole : earlier ++ mount :: rest = earlier ++ [mount] ++ rest := by simp
    rw [whole]
    apply ih later shorter
    · rw [List.filter_append]
      cases seen : machine.inspects mount with
      | true =>
        rw [if_pos rfl, List.filter_cons_of_pos seen, List.filter_nil]
        exact settled.offer distinct (fun name found => (owner name found).2.2 seen) (only seen)
      | false =>
        rw [if_neg Bool.false_ne_true, List.filter_cons_of_neg (by simp [seen]), List.filter_nil,
          List.append_nil]
        exact settled
    · intro slot there held found
      split at there
      · rcases either with ⟨-, good⟩ | missed
        · rcases mem_offer there with old | new
          · exact readable slot old held found
          · rw [new] at found
            exact Option.some.inj found ▸ good
        · rw [offer_missed missed] at there
          exact readable slot there held found
      · exact readable slot there held found

/-- The records when every mount is seen and can be read. -/
theorem tidy_run {earlier rest : List DiskMount} {slots : List (CString × Option DiskMount)}
    (room : (diskMounts (earlier ++ rest)).length ≤ 8191)
    (short : ∀ slot ∈ slots, slot.1.length < 64) (readable : ∀ mount ∈ rest, Readable mount) :
    (cutLines (8191 - (diskMounts earlier).length) (rest.map DiskMount.line)).foldl
        (mountLine machine.statvfs) (slots.map machine.render) =
      (serve begins slots (rest.filter machine.inspects)).map machine.render := by
  induction rest generalizing earlier slots with
  | nil => rfl
  | cons mount rest ih =>
    have whole : earlier ++ mount :: rest = earlier ++ [mount] ++ rest := by simp
    have inside : (diskMounts (earlier ++ [mount])).length ≤ 8191 := by
      rw [whole, diskMounts_length] at room
      exact Nat.le_trans (Nat.le_add_right _ _) room
    have seen : Seen earlier mount := by
      rw [diskMounts_snoc, DiskMount.line, List.length_append] at inside
      unfold Seen
      omega
    have offered := machine.part_offer short
      (.inl ⟨seen, readable mount List.mem_cons_self⟩)
    rw [cutLines_cons, List.foldl_append, offered,
      ih (whole ▸ room) (machine.offered_short short mount)
        fun other found => readable other (List.mem_cons_of_mem _ found)]
    cases inspected : machine.inspects mount with
    | true =>
      rw [if_pos rfl, List.filter_cons_of_pos inspected]
      rfl
    | false => rw [if_neg Bool.false_ne_true, List.filter_cons_of_neg (by simp [inspected])]

/-- What is returned, in terms of the records before the mounts. -/
theorem probe_eq : machine.probe = (cutLines 8191 (machine.mounts.map DiskMount.line)).foldl
    (mountLine machine.statvfs) ((vacant machine.listed).map machine.render) := by
  rw [probe, hapDiskProbe, devices_listed]
  by_cases none_ : (vacant machine.listed).map machine.render = []
  · rw [if_pos none_, none_]
    have still (texts : List CString) : texts.foldl (mountLine machine.statvfs) [] = [] := by
      induction texts with
      | nil => rfl
      | cons text texts ih =>
        have one : mountLine machine.statvfs [] text = [] := by
          rw [mountLine]
          split <;> rfl
        rw [List.foldl_cons, one, ih]
    exact (still _).symm
  · rw [if_neg none_]
    by_cases empty : diskMounts machine.mounts = []
    · have read : hapReadFile machine.files (lit "/proc/mounts") 8192 = none := by
        rw [hapReadFile, machine.printed, empty]
        rfl
      have none_ : machine.mounts = [] := by
        cases found : machine.mounts with
        | nil => rfl
        | cons mount rest => simp [found, diskMounts] at empty
      rw [read, none_]
      rfl
    · rw [hapReadFile_some machine.printed empty (by decide)]
      dsimp only
      rw [lines_mounts]

end Machine

/-! ## The condition -/

/-- The slots of devices whose names fit. -/
theorem vacant_short {places : List CString} (short : ∀ name ∈ places, name.length < 64) :
    ∀ slot ∈ (vacant places : List (CString × Option DiskMount)), slot.1.length < 64 := by
  intro slot there
  obtain ⟨name, member, rfl⟩ := List.mem_map.mp there
  exact short name member

/-- No slot is filled before the first mount. -/
theorem vacant_free {places : List CString} :
    ∀ slot ∈ (vacant places : List (CString × Option DiskMount)), slot.2 = none := by
  intro slot there
  obtain ⟨name, -, rfl⟩ := List.mem_map.mp there
  rfl

namespace Machine

variable {machine : Machine}

/-- The listed devices are distinct. -/
theorem listed_distinct (machine : Machine) : machine.listed.Nodup :=
  (machine.distinct.filter _).sublist (List.take_sublist _ _)

/-- When all mounts are clear, the records are exact. -/
theorem Clear.exact (clear : machine.Clear) : DisksExact machine := by
  obtain ⟨final, records, short, settled, readable⟩ :=
    clear.clear.run machine.listed_distinct (vacant_short clear.short)
      (settled_vacant owns machine.listed)
      (fun slot there mount found => by rw [vacant_free slot there] at found; cases found)
  have result : machine.probe = final.map machine.render := by
    rw [probe_eq]
    exact records
  rw [List.nil_append] at settled
  constructor
  · intro dev there
    rw [result] at there
    obtain ⟨slot, member, rfl⟩ := List.mem_map.mp there
    have name := machine.render_name (short slot member)
    cases held : slot.2 with
    | none =>
      obtain ⟨size, record⟩ := machine.bare_record slot.1
      left
      rw [render, held, Option.elim_none, record]
      exact ⟨rfl, rfl, rfl⟩
    | some mount =>
      obtain ⟨listed, own⟩ := settled.own slot member mount held
      obtain ⟨mounted, inspected⟩ := List.mem_filter.mp listed
      obtain ⟨-, target, fstype⟩ := readable slot member mount held
      obtain ⟨usage, known⟩ := Option.isSome_iff_exists.mp inspected
      have given : machine.render slot =
          (machine.bare slot.1).mounted mount.target mount.fstype usage := by
        rw [render, held, Option.elim_some, known, Option.getD_some]
      refine .inr ⟨mount, mounted, name ▸ own, ?_, ?_, ?_⟩
      · rw [given]
        exact snprintf_eq target
      · rw [given]
        exact snprintf_eq fstype
      · rw [given]
        exact known
  · intro name member mount mounted own inspected
    have listed := clear.reached name member mount mounted own inspected
    rw [← settled.places] at listed
    obtain ⟨slot, there, rfl⟩ := List.mem_map.mp listed
    have one : had owns (machine.mounts.filter machine.inspects) slot.1 = true :=
      List.any_eq_true.mpr ⟨mount, List.mem_filter.mpr ⟨mounted, inspected⟩, own⟩
    have filled := settled.filled slot there
    rw [one] at filled
    refine ⟨machine.render slot, ?_, machine.render_name (short slot there), ?_⟩
    · rw [result]
      exact List.mem_map_of_mem there
    · have empty := machine.render_mountPoint slot
      rw [Option.isNone_eq_false_iff.mpr filled] at empty
      exact List.isEmpty_eq_false_iff.mp empty

/-- Mounts that are clear for the slots are clear in the table, where all can be read. -/
theorem Tidy.mountsClear (tidy : machine.Tidy) {earlier rest : List DiskMount}
    (whole : machine.mounts = earlier ++ rest)
    (clear : FirstFit.Clear begins owns machine.listed (earlier.filter machine.inspects)
      (rest.filter machine.inspects)) : machine.MountsClear earlier rest := by
  induction rest generalizing earlier with
  | nil => trivial
  | cons mount rest ih =>
    have joined : earlier ++ mount :: rest = earlier ++ [mount] ++ rest := by simp
    have room := tidy.text
    rw [whole, joined, diskMounts_length, diskMounts_snoc, DiskMount.line,
      List.length_append] at room
    have seen : Seen earlier mount := by
      unfold Seen
      omega
    have readable := (tidy.readable mount (by rw [whole]; simp)).1
    have later := @ih (earlier ++ [mount]) (whole.trans joined)
    rw [List.filter_append] at later
    cases inspected : machine.inspects mount with
    | true =>
      rw [List.filter_cons_of_pos inspected] at clear
      rw [List.filter_cons_of_pos inspected, List.filter_nil] at later
      obtain ⟨owner, only, others⟩ := clear
      exact ⟨fun name found => ⟨seen, readable, fun _ => owner name found⟩, fun _ => only,
        later others⟩
    | false =>
      have absent : ¬ machine.inspects mount = true := by simp [inspected]
      rw [List.filter_cons_of_neg absent] at clear
      rw [List.filter_cons_of_neg absent, List.filter_nil, List.append_nil] at later
      exact ⟨fun name _ => ⟨seen, readable, fun found => absurd found absent⟩,
        fun found => absurd found absent, later clear⟩

/-- A mount begins with the device it belongs to. -/
theorem Tidy.begins (tidy : machine.Tidy) {name : CString} {mount : DiskMount}
    (mounted : mount ∈ machine.mounts) (own : owns name mount = true) :
    Hap.begins name mount = true := by
  obtain ⟨-, plain, short⟩ := tidy.readable mount mounted
  rw [owns, ownsSource, Bool.and_eq_true, List.isPrefixOf_iff_prefix] at own
  obtain ⟨rest, whole⟩ := own.1
  rw [Hap.begins, plain, snprintf_eq short, hapMountMatches, ← whole, Bool.and_eq_true,
    List.isPrefixOf_iff_prefix, List.isPrefixOf_iff_prefix, List.append_assoc]
  refine ⟨List.prefix_append _ _, ?_⟩
  have five : (lit "/dev/").length = 5 := by decide
  rw [← five, List.drop_left]
  exact List.prefix_append _ _

/-- When the records are exact and nothing is cut off or covered, all mounts are clear. -/
theorem Tidy.clear (tidy : machine.Tidy) (exact : DisksExact machine) : machine.Clear := by
  obtain ⟨listed, short⟩ := tidy.names
  have fits : ∀ name ∈ machine.listed, name.length < 64 := fun name member =>
    short name (listed ▸ member)
  have result := @tidy_run machine [] machine.mounts (vacant machine.listed) tidy.text
    (vacant_short fits) fun mount mounted => (tidy.readable mount mounted).1
  have probed := (@probe_eq machine).trans result
  refine ⟨fits, fun name member _ _ _ _ => listed ▸ member, ?_⟩
  apply tidy.mountsClear rfl
  refine (settled_vacant owns machine.listed).clear machine.listed_distinct ?_ ?_ ?_
  · intro name member other also mount there
    exact tidy.single name (listed ▸ member) other (listed ▸ also) mount
      (List.mem_filter.mp there).1
  · intro name _ mount there
    exact tidy.begins (List.mem_filter.mp there).1
  · intro slot there mount held
    rcases mem_serve there with before | ⟨given, member, same⟩
    · rw [vacant_free slot before] at held
      cases held
    obtain rfl := Option.some.inj (same.symm.trans held)
    have mounted := (List.mem_filter.mp member).1
    have name : slot.1.length < 64 := by
      have place := List.mem_map_of_mem (f := Prod.fst) there
      rw [serve_places, (settled_vacant owns machine.listed).places] at place
      exact fits slot.1 place
    have dev := exact.recorded (machine.render slot) (probed ▸ List.mem_map_of_mem there)
    have point : (machine.render slot).mountPoint.1 = given.target := by
      rw [render, same, Option.elim_some]
      exact snprintf_eq (tidy.readable given mounted).1.2.1
    rcases dev with ⟨nothing, -⟩ | ⟨other, there, own, target, -⟩
    · exact absurd (point.symm.trans nothing) given.target_filled
    · have covers : other = given :=
        List.inj_on_of_nodup_map tidy.targets there mounted (target.symm.trans point)
      rw [machine.render_name name, covers] at own
      exact own

/-- The records are exact when all mounts are clear; and when nothing is cut off or covered, only
then. -/
theorem disksExact_iff (machine : Machine) :
    (machine.Clear → DisksExact machine) ∧
      (machine.Tidy → (DisksExact machine ↔ machine.Clear)) :=
  ⟨fun clear => clear.exact, fun tidy => ⟨fun exact => tidy.clear exact, fun clear => clear.exact⟩⟩

end Machine

/-! ## Two devices -/

/-- The files of block devices of one sector, with a mount table. -/
def someFiles (mounts : List DiskMount) : Files := fun path =>
  if path = lit "/proc/mounts" then some (diskMounts mounts)
  else if lit "/sys/block/" <+: path ∧ lit "/size" <:+ path then some (lit "1\n")
  else none

/-- A mount point of a megabyte, half of it free. -/
def someStatvfs : CString → Option Statvfs := fun _ => some ⟨2, 1, 524288, 0⟩

/-- A mount with the options `rw`. -/
def someMount (source target fstype : String) (filled : lit target ≠ [])
    (solid : ∀ byte ∈ lit fstype, isGap byte = false)
    (free : (0 : UInt8) ∉ lit source ++ lit target ++ lit fstype ++ lit "rw 0 0") : DiskMount where
  source := lit source
  target := lit target
  fstype := lit fstype
  details := lit "rw 0 0"
  target_filled := filled
  fstype_solid := solid
  details_plain := by decide +kernel
  zero_free := free

/-- A partition of `sdb`. -/
def rootMount : DiskMount :=
  someMount "/dev/sdb1" "/" "ext4" (by decide +kernel) (by decide +kernel) (by decide +kernel)

/-- A machine with two disks and a partition of the second one. -/
def twoDisks : Machine where
  names := [lit "sda", lit "sdb"]
  distinct := by decide +kernel
  mounts := [rootMount]
  files := someFiles [rootMount]
  printed := rfl
  statvfs := someStatvfs

/-- The partition is recorded for its disk. -/
theorem twoDisks_exact : DisksExact twoDisks ∧ twoDisks.Clear := by
  have every := Machine.disksExact_iff twoDisks
  have listed : twoDisks.listed = twoDisks.names := by decide +kernel
  have exact : DisksExact twoDisks := by
    apply every.1
    refine ⟨by decide +kernel, ?_, ?_, ?_, trivial⟩
    · intro name member _ _ _ _
      exact listed ▸ member
    · decide +kernel
    · decide +kernel
  have tidy : twoDisks.Tidy :=
    ⟨⟨listed, by decide +kernel⟩, by decide +kernel, by decide +kernel, by decide +kernel,
      by decide +kernel⟩
  exact ⟨exact, (every.2 tidy).mp exact⟩

/-- The device `loop10`. -/
def snapMount : DiskMount :=
  someMount "/dev/loop10" "/snap" "squashfs" (by decide +kernel) (by decide +kernel)
    (by decide +kernel)

/-- A machine with two loop devices, where the name of one begins with the other's. -/
def twoLoops : Machine where
  names := [lit "loop1", lit "loop10"]
  distinct := by decide +kernel
  mounts := [snapMount]
  files := someFiles [snapMount]
  printed := rfl
  statvfs := someStatvfs

/-- The mount of `loop10` is recorded for `loop1`. -/
theorem loop10_misplaced : ¬ ∀ machine : Machine, DisksExact machine := by
  intro always
  obtain ⟨dev, there, name, filled⟩ := (always twoLoops).complete (lit "loop10") (by decide +kernel)
    snapMount List.mem_cons_self (by decide +kernel) (by decide +kernel)
  have nothing : ∀ dev ∈ twoLoops.probe, dev.name.1 = lit "loop10" → dev.mountPoint.1 = [] := by
    decide +kernel
  exact filled (nothing dev there name)

end HwrunOs.Hap
