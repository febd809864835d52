import HwrunOs.Library.Files
import HwrunOs.Storage.Registry

/-!
# Copying directory trees

`storage_copy_tree` walks a directory with `lstat` and builds the paths of the entries in buffers of
1024 bytes; `storage_mkdir_p` refuses a path of 512 bytes, and a link target is read into a buffer
of 1024. The host makes no errors of its own: an operation fails only where the file system says so.
Paths pass through no symbolic links, and the directories on the way of a path with dots exist.
-/

namespace HwrunOs.Storage

open HwrunOs.Bytes HwrunOs.Paths

/-- `-EISDIR`. -/
def eisdir : Int := -21

/-! ## The file system -/

/-- The error of making an object that cannot be made. -/
def makeError (files : Files) (path : Path) : Int :=
  match files.get path.dropLast with
  | none => enoent
  | some (.dir _) => enametoolong
  | some _ => enotdir

/-- `mkdir`, where an existing object is no error. -/
def mkdir (files : Files) (path : Path) (mode : Mode) : Files × Int :=
  if (files.get path).isSome then (files, 0)
  else if able : files.Makeable path then (files.make path (.dir mode) able, 0)
  else (files, makeError files path)

/-- The loop of `storage_mkdir_p` over the components of a path, below a directory. -/
def mkdirs (mode : Mode) (above : Path) : Path → Files → Files × Int
  | [], files => (files, 0)
  | name :: rest, files =>
    let (files, rc) := mkdir files (above ++ [name]) mode
    if rc ≠ 0 then (files, rc) else mkdirs mode (above ++ [name]) rest files

/-- `storage_mkdir_p`. -/
def storageMkdirP (cwd : CString) (files : Files) (path : CString) (mode : Mode) : Files × Int :=
  if 512 ≤ path.length then (files, enametoolong)
  else
    let (files, rc) := mkdirs mode [] (resolve cwd path) files
    if rc ≠ 0 then (files, rc)
    else match files.get (resolve cwd path) with
      | some (.dir _) => (files, 0)
      | some _ => (files, enotdir)
      | none => (files, enoent)

/-- `chmod`. -/
def chmod (files : Files) (path : Path) (mode : Mode) : Files :=
  files.change path
    (fun
      | .dir _ => .dir mode
      | .file _ bytes => .file mode bytes
      | other => other)
    fun _ => ⟨mode, rfl⟩

/-- `storage_copy_file` from a file with its bytes and its mode. What is not a regular file is not
opened for writing. -/
def storageCopyFile (files : Files) (path : Path) (mode : Mode) (bytes : CString) : Files × Int :=
  match files.get path with
  | none =>
    if able : files.Makeable path then (files.make path (.file mode bytes) able, 0)
    else (files, makeError files path)
  | some (.file _ _) =>
    (files.change path
      (fun
        | .file _ _ => .file mode bytes
        | other => other)
      fun old => ⟨old, rfl⟩, 0)
  | some (.dir _) => (files, eisdir)
  | some _ => (files, eio)

/-- `symlink`. -/
def symlink (files : Files) (target : CString) (path : Path) : Files × Int :=
  if (files.get path).isSome then (files, eexist)
  else if able : files.Makeable path then (files.make path (.link target) able, 0)
  else (files, makeError files path)

/-- `readlink` into a buffer of 1024 bytes. -/
def readlink (target : CString) : CString := target.take 1023

/-! ## The walk -/

/-- The path of a directory entry, in a buffer of 1024 bytes. -/
def childPath (dir name : CString) : CString := snprintf 1024 (dir ++ 47 :: name)

/-- The loop of `storage_copy_tree` over the entries of a directory. -/
def copyEntries (copy : Files → CString → CString → Files × Int) (src dst : CString) :
    List CString → Files → Files × Int
  | [], files => (files, 0)
  | name :: rest, files =>
    let (files, rc) := copy files (childPath src name) (childPath dst name)
    if rc ≠ 0 then (files, rc) else copyEntries copy src dst rest files

/-- `storage_copy_tree` on a directory with a mode, given the copy of an entry. -/
def copyDirectory (cwd : CString) (copy : Files → CString → CString → Files × Int)
    (files : Files) (src dst : CString) (mode : Mode) : Files × Int :=
  let (files, rc) := storageMkdirP cwd files dst 448
  if rc ≠ 0 then (files, rc)
  else
    let (files, rc) := copyEntries copy src dst (files.names (resolve cwd src)) files
    if rc ≠ 0 then (files, rc) else (chmod files (resolve cwd dst) mode, 0)

/-- `storage_copy_tree`, given what it does on a directory with a mode. -/
def copyObject (cwd : CString)
    (directory : Files → CString → CString → Mode → Files × Int) (files : Files)
    (src dst : CString) : Files × Int :=
  match files.get (resolve cwd src) with
  | none => (files, enoent)
  | some (.dir mode) => directory files src dst mode
  | some (.file mode bytes) => storageCopyFile files (resolve cwd dst) mode bytes
  | some (.link target) => symlink files (readlink target) (resolve cwd dst)
  | some .special => (files, 0)

/-- `storage_copy_tree` up to a depth. Below it a directory is refused as `storage_mkdir_p` refuses
a long path. -/
def copyTree (cwd : CString) : Nat → Files → CString → CString → Files × Int
  | 0 => copyObject cwd fun files _ _ _ => (files, enametoolong)
  | depth + 1 => copyObject cwd (copyDirectory cwd (copyTree cwd depth))

/-- `storage_copy_tree`. Every level adds a byte to the destination, and a directory needs one
below 512 bytes, so it never gets deeper than that. -/
def storageCopyTree (cwd : CString) (files : Files) (src dst : CString) : Files × Int :=
  copyTree cwd 512 files src dst

/-- The loop of `storage_dir_clear`: every entry is removed with what is below it. -/
def clearEntries (cwd path : CString) : List CString → Files → Files × Int
  | [], files => (files, 0)
  | name :: rest, files =>
    let child := resolve cwd (childPath path name)
    match files.get child with
    | none => (files, enoent)
    | some _ => clearEntries cwd path rest (files.removeTree child)

/-- `storage_dir_clear`. -/
def storageDirClear (cwd : CString) (files : Files) (path : CString) : Files × Int :=
  match files.get (resolve cwd path) with
  | some (.dir _) => clearEntries cwd path (files.names (resolve cwd path)) files
  | some _ => (files, enotdir)
  | none => (files, enoent)

/-! ## Depth -/

/-- The path of an entry is longer than that of its directory, unless its buffer is full. -/
theorem childPath_length (dir name : CString) :
    dir.length + 1 ≤ (childPath dir name).length ∨ (childPath dir name).length = 1023 := by
  simp only [childPath, snprintf, List.length_take, List.length_append, List.length_cons]
  omega

/-- The loop does the same with two copies that agree on its entries. -/
theorem copyEntries_congr {first second : Files → CString → CString → Files × Int}
    {src dst : CString} {names : List CString}
    (same : ∀ files, ∀ name, first files (childPath src name) (childPath dst name) =
      second files (childPath src name) (childPath dst name)) (files : Files) :
    copyEntries first src dst names files = copyEntries second src dst names files := by
  induction names generalizing files with
  | nil => rfl
  | cons name rest ih =>
    simp only [copyEntries, same, ih]

/-- A directory with a long path is refused. -/
theorem copyDirectory_long {cwd : CString} {copy : Files → CString → CString → Files × Int}
    {files : Files} {src dst : CString} {mode : Mode} (long : 512 ≤ dst.length) :
    copyDirectory cwd copy files src dst mode = (files, enametoolong) := by
  have refused : storageMkdirP cwd files dst 448 = (files, enametoolong) := if_pos long
  simp only [copyDirectory, refused]
  rfl

/-- The depth makes no difference once it covers the bytes that a directory path has left. -/
theorem copyTree_depth (cwd : CString) {depth : Nat} (files : Files) (src dst : CString)
    (covers : 512 ≤ dst.length + depth) :
    copyTree cwd (depth + 1) files src dst = copyTree cwd depth files src dst := by
  induction depth generalizing files src dst with
  | zero =>
    show copyObject cwd (copyDirectory cwd (copyTree cwd 0)) files src dst =
      copyObject cwd (fun files _ _ _ => (files, enametoolong)) files src dst
    unfold copyObject
    split <;> first | rfl | exact copyDirectory_long (by omega)
  | succ depth ih =>
    have same (files : Files) (name : CString) :
        copyTree cwd (depth + 1) files (childPath src name) (childPath dst name) =
          copyTree cwd depth files (childPath src name) (childPath dst name) := by
      apply ih
      rcases childPath_length dst name with longer | full
      · omega
      · omega
    have entries := fun names files => @copyEntries_congr (copyTree cwd (depth + 1))
      (copyTree cwd depth) src dst names same files
    show copyObject cwd (copyDirectory cwd (copyTree cwd (depth + 1))) files src dst =
      copyObject cwd (copyDirectory cwd (copyTree cwd depth)) files src dst
    unfold copyObject
    split
    · rfl
    · simp only [copyDirectory, entries]
    · rfl
    · rfl
    · rfl

/-- `storage_copy_tree` calls itself on the entries of a directory. -/
theorem storageCopyTree_eq (cwd : CString) (files : Files) (src dst : CString) :
    storageCopyTree cwd files src dst =
      copyObject cwd (copyDirectory cwd (storageCopyTree cwd)) files src dst :=
  (copyTree_depth cwd files src dst (Nat.le_add_left _ _)).symm

end HwrunOs.Storage
