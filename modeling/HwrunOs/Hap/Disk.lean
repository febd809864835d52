import HwrunOs.Fsp.Mounts
import HwrunOs.Hap.Util

/-!
# Disks and where they are mounted

`hap_disk_probe` lists the block devices and then goes through the mount table: every mount is given
to the first device without one whose name the source begins with behind `/dev/`.
-/

namespace HwrunOs.Hap

open HwrunOs.Bytes HwrunOs.Fsp

/-! ## The devices -/

/-- What `statvfs` fills in, as far as it is read. -/
structure Statvfs where
  /-- `f_blocks`. -/
  blocks : UInt64
  /-- `f_bavail`. -/
  bavail : UInt64
  /-- `f_frsize`. -/
  frsize : UInt64
  /-- `f_bsize`. -/
  bsize : UInt64

/-- The use of a file system. -/
structure DiskUsage where
  /-- `used_mb`. -/
  usedMb : UInt64
  /-- `free_mb`. -/
  freeMb : UInt64
  /-- `use_pct`: the used and all bytes that it is the quotient of. -/
  usePct : UInt64 × UInt64
  deriving DecidableEq

/-- The record after `memset`. -/
def DiskUsage.zero : DiskUsage := ⟨0, 0, (0, 0)⟩

/-- `hap_disk_device_t`; `available` is set in every record that is listed. -/
structure DiskDevice where
  /-- `name`. -/
  name : Field 64
  /-- `model`. -/
  model : Field 128
  /-- `capacity_mb`. -/
  capacityMb : UInt64
  /-- `used_mb`, `free_mb` and `use_pct`. -/
  usage : DiskUsage
  /-- `mount_point`. -/
  mountPoint : Field 256
  /-- `fs_type`. -/
  fsType : Field 32
  deriving DecidableEq

/-- `SYS_DEV_SIZE` and its siblings. -/
def sysBlockPath (name : CString) (file : String) : CString :=
  snprintf 512 (lit "/sys/block/" ++ name ++ lit file)

/-- The record of a block device whose size could be read. -/
def diskRecord (files : Files) (name size : CString) : DiskDevice where
  name := Field.copy name
  model := Field.copy
    (((hapReadFile files (sysBlockPath name "/device/model") 256).getD []).rdropWhile isSpace)
  capacityMb := UInt64.ofNat (strtoull size).1 * 512 / 1048576
  usage := .zero
  mountPoint := Field.copy []
  fsType := Field.copy []

/-- The first loop of `hap_disk_probe`, at one entry of the directory. -/
def hapDisk (files : Files) (name : CString) : Option DiskDevice :=
  if name.head? = some 46 then none
  else (hapReadFile files (sysBlockPath name "/size") 256).map (diskRecord files name)

/-! ## The mounts -/

/-- `hap_mount_matches`. -/
def hapMountMatches (fsdev diskname : CString) : Bool :=
  (lit "/dev/").isPrefixOf fsdev && diskname.isPrefixOf (fsdev.drop 5)

/-- `hap_stat_mount`. -/
def hapStatMount (statvfs : CString → Option Statvfs) (mp : CString) : Option DiskUsage :=
  match statvfs mp with
  | none => none
  | some st =>
    if st.blocks = 0 then none
    else
      let blksize := if st.frsize = 0 then st.bsize else st.frsize
      let total := st.blocks * blksize
      let avail := st.bavail * blksize
      let used := if avail < total then total - avail else 0
      some ⟨used / 1048576, avail / 1048576, (used, total)⟩

/-- The fields of a line: what stands in front of the first three blanks. -/
structure MountFields where
  /-- `fsdev`. -/
  fsdev : CString
  /-- `mp`. -/
  mp : CString
  /-- `fstype`. -/
  fstype : CString

/-- A word in front of a blank and what is behind it, or the empty text and what was there. -/
def nextWord (cap : Nat) (text : CString) : CString × CString :=
  match cutAt 32 text with
  | some (word, rest) => (snprintf cap word, rest)
  | none => ([], text)

/-- The three cuts of a line. -/
def mountFields (line : CString) : MountFields :=
  let fsdev := nextWord 256 line
  let mp := nextWord 256 fsdev.2
  let fstype := nextWord 64 mp.2
  ⟨fsdev.1, mp.1, fstype.1⟩

/-- What is stored in the record of a device. -/
def DiskDevice.mounted (dev : DiskDevice) (mp fstype : CString) (usage : DiskUsage) : DiskDevice :=
  { dev with mountPoint := Field.copy mp, fsType := Field.copy fstype, usage := usage }

/-- The loop over the devices, which ends at the first one that takes the mount, whether it can be
inspected or not. -/
def mountDevice (statvfs : CString → Option Statvfs) (fields : MountFields) :
    List DiskDevice → List DiskDevice
  | [] => []
  | dev :: rest =>
    if hapMountMatches fields.fsdev dev.name.1 && dev.mountPoint.1.isEmpty then
      ((hapStatMount statvfs fields.mp).map (dev.mounted fields.mp fields.fstype)).getD dev :: rest
    else dev :: mountDevice statvfs fields rest

/-- The loop over the mount table, at one line. -/
def mountLine (statvfs : CString → Option Statvfs) (devices : List DiskDevice) (line : CString) :
    List DiskDevice :=
  let fields := mountFields line
  if fields.mp = [] then devices else mountDevice statvfs fields devices

/-- `hap_disk_probe`, with the entries of `/sys/block` unless it cannot be opened. -/
def hapDiskProbe (block : Option (List CString)) (files : Files)
    (statvfs : CString → Option Statvfs) : List DiskDevice :=
  match block with
  | none => []
  | some entries =>
    let devices := (entries.filterMap (hapDisk files)).take 32
    if devices = [] then []
    else
      match hapReadFile files (lit "/proc/mounts") 8192 with
      | none => devices
      | some mounts => (lines mounts).foldl (mountLine statvfs) devices

/-! ## What the kernel prints -/

/-- A mount. -/
structure DiskMount where
  /-- The source. -/
  source : CString
  /-- The mount point. -/
  target : CString
  /-- The type. -/
  fstype : CString
  /-- The options and what is behind them. -/
  details : CString
  /-- The mount point has a name. -/
  target_filled : target ≠ []
  /-- The type is one word. -/
  fstype_solid : ∀ byte ∈ fstype, isGap byte = false
  /-- The options are on the same line. -/
  details_plain : newline ∉ details
  /-- There are no zero bytes. -/
  zero_free : (0 : UInt8) ∉ source ++ target ++ fstype ++ details

namespace DiskMount

/-- The first three words. -/
def head (mount : DiskMount) : CString :=
  mangle mount.source ++ 32 :: (mangle mount.target ++ 32 :: (mount.fstype ++ [32]))

/-- The line. -/
def line (mount : DiskMount) : CString := mount.head ++ mount.details

end DiskMount

/-- `/proc/mounts`. -/
def diskMounts (mounts : List DiskMount) : CString :=
  (mounts.map DiskMount.line).flatMap (· ++ [newline])

/-- A block device and its partitions, as the kernel names them: digits are put behind the name,
and a `p` between when the name ends in a digit. -/
def isPartition (name suffix : CString) : Bool :=
  if name.getLast?.any isDigit then
    suffix.head? == some 112 && !suffix.tail.isEmpty && suffix.tail.all isDigit
  else !suffix.isEmpty && suffix.all isDigit

/-- The source is the device or one of its partitions. -/
def ownsSource (name source : CString) : Bool :=
  (lit "/dev/" ++ name).isPrefixOf source &&
    ((source.drop (5 + name.length)).isEmpty || isPartition name (source.drop (5 + name.length)))

/-! ## Lines -/

/-- A printed name has no zero byte. -/
theorem mangle_zero {name : CString} (plain : (0 : UInt8) ∉ name) : (0 : UInt8) ∉ mangle name := by
  intro found
  obtain ⟨byte, there, inside⟩ := List.mem_flatMap.mp found
  unfold mangleByte at inside
  split at inside
  · revert inside
    decide
  split at inside
  · revert inside
    decide
  split at inside
  · revert inside
    decide
  split at inside
  · revert inside
    decide
  · rw [List.mem_singleton] at inside
    exact plain (inside ▸ there)

/-- A name without blanks, tabs, line feeds and backslashes is printed as it is. -/
theorem mangle_plain {name : CString} (plain : ∀ byte ∈ name, byte ≠ 32 ∧ ¬ Special byte) :
    mangle name = name := by
  induction name with
  | nil => rfl
  | cons byte name ih =>
    obtain ⟨blank, other⟩ := plain byte List.mem_cons_self
    simp only [Special, not_or] at other
    rw [mangle, List.flatMap_cons, ← mangle,
      ih fun later found => plain later (List.mem_cons_of_mem _ found), mangleByte, if_neg blank,
      if_neg other.1, if_neg other.2.1, if_neg other.2.2, List.singleton_append]

/-- A word without blanks in front of a blank. -/
theorem nextWord_word {cap : Nat} {word : CString} (solid : ∀ byte ∈ word, isGap byte = false)
    (rest : CString) : nextWord cap (word ++ 32 :: rest) = (snprintf cap word, rest) := by
  have absent : (32 : UInt8) ∉ word := fun found => by cases solid 32 found
  rw [nextWord, cutAt_append absent]

namespace DiskMount

variable (mount : DiskMount)

/-- The fields of a line that goes on behind the first three words. -/
theorem fields_head (rest : CString) :
    mountFields (mount.head ++ rest) = ⟨snprintf 256 (mangle mount.source),
      snprintf 256 (mangle mount.target), snprintf 64 mount.fstype⟩ := by
  have whole : mount.head ++ rest = mangle mount.source ++ 32 :: (mangle mount.target ++
      32 :: (mount.fstype ++ 32 :: rest)) := by
    simp [head]
  rw [mountFields, whole, nextWord_word (mangle_solid mount.source)]
  dsimp only
  rw [nextWord_word (mangle_solid mount.target)]
  dsimp only
  rw [nextWord_word mount.fstype_solid]

/-- A line that is cut off has the source as its first field, or none. -/
theorem fields_take (room : Nat) :
    (mountFields (mount.line.take room)).fsdev = [] ∨
      (mountFields (mount.line.take room)).fsdev = snprintf 256 (mangle mount.source) := by
  have whole : mount.line = mangle mount.source ++ 32 :: (mangle mount.target ++
      32 :: (mount.fstype ++ 32 :: mount.details)) := by
    simp [line, head]
  by_cases inside : room ≤ (mangle mount.source).length
  · left
    have solid : (32 : UInt8) ∉ (mangle mount.source).take room :=
      fun found => by cases mangle_solid mount.source 32 (List.mem_of_mem_take found)
    have none_ : cutAt 32 ((mangle mount.source).take room) = none := by
      have ends : ((mangle mount.source).take room).dropWhile (· != 32) = [] := by
        rw [List.dropWhile_eq_nil_iff]
        intro byte found
        simp only [bne_iff_ne]
        rintro rfl
        exact solid found
      rw [cutAt, ends]
    rw [mountFields, whole, List.take_append_of_le_length inside, nextWord, none_]
  · right
    obtain ⟨more, size⟩ := Nat.exists_eq_add_of_lt (Nat.not_le.mp inside)
    rw [mountFields, whole, List.take_append, List.take_of_length_le (by omega),
      show room - (mangle mount.source).length = more + 1 by omega, List.take_succ_cons,
      nextWord_word (mangle_solid mount.source)]

/-- A line has no line feed and no zero byte. -/
theorem line_plain : newline ∉ mount.line ∧ mount.line ≠ [] ∧ (0 : UInt8) ∉ mount.line := by
  have zero := mount.zero_free
  simp only [List.mem_append, not_or] at zero
  have source := solid_plain (mangle_solid mount.source)
  have target := solid_plain (mangle_solid mount.target)
  have fstype := solid_plain mount.fstype_solid
  have blank : newline ≠ 32 := by decide
  refine ⟨?_, by simp [line, head], ?_⟩
  · simp [line, head, source, target, fstype, blank, mount.details_plain]
  · simp [line, head, mangle_zero zero.1.1.1, mangle_zero zero.1.1.2, zero.1.2, zero.2]

end DiskMount

/-- The lines that are read of the mount table. -/
theorem lines_mounts (mounts : List DiskMount) :
    lines (bufferText ((diskMounts mounts).take 8191)) =
      cutLines 8191 (mounts.map DiskMount.line) := by
  have zero : (0 : UInt8) ∉ diskMounts mounts := by
    intro found
    obtain ⟨line, member, inside⟩ := List.mem_flatMap.mp found
    obtain ⟨mount, -, rfl⟩ := List.mem_map.mp member
    rcases List.mem_append.mp inside with here | feed
    · exact mount.line_plain.2.2 here
    · revert feed
      decide
  rw [bufferText_eq fun found => zero (List.mem_of_mem_take found)]
  apply lines_take
  intro line member
  obtain ⟨mount, -, rfl⟩ := List.mem_map.mp member
  exact ⟨mount.line_plain.1, mount.line_plain.2.1⟩

end HwrunOs.Hap
