import HwrunOs.Storage.CopyTree

/-!
# What a copy leaves

A copy writes below its destination only. Where it succeeds, the destination has the objects of the
source as far as the paths of the source fit their buffers, every directory it has made has a path
below 512 bytes, and it succeeds wherever all paths have room.
-/

namespace HwrunOs.Storage

open HwrunOs.Bytes HwrunOs.Paths

variable {cwd : CString}

/-! ## Paths of entries -/

/-- The bytes that a relative path adds to a path. -/
def span : Path → Nat
  | [] => 0
  | name :: rel => name.length + 1 + span rel

@[simp] theorem span_nil : span [] = 0 := rfl

@[simp] theorem span_cons (name : CString) (rel : Path) :
    span (name :: rel) = name.length + 1 + span rel := rfl

@[simp] theorem span_append (front back : Path) :
    span (front ++ back) = span front + span back := by
  induction front with
  | nil => simp
  | cons name front ih =>
    rw [List.cons_append, span_cons, span_cons, ih]
    omega

/-- The path of an entry whose buffer has room. -/
theorem childPath_eq {dir name : CString} (room : dir.length + 1 + name.length < 1024) :
    childPath dir name = dir ++ 47 :: name := by
  apply snprintf_eq
  rw [List.length_append, List.length_cons]
  omega

/-- The place of an entry. -/
theorem resolve_childPath {dir name : CString} (started : dir ≠ []) (ok : NameOk name)
    (room : dir.length + 1 + name.length < 1024) :
    resolve cwd (childPath dir name) = resolve cwd dir ++ [name] := by
  rw [childPath_eq room]
  exact resolve_component started ok.2.1 ok.1 ok.2.2.1 ok.2.2.2.1

/-- The bytes of an entry's path. -/
theorem childPath_size {dir name : CString} (room : dir.length + 1 + name.length < 1024) :
    (childPath dir name).length = dir.length + (name.length + 1) := by
  rw [childPath_eq room, List.length_append, List.length_cons]

/-- The path of an entry is not empty. -/
theorem childPath_ne_nil (dir name : CString) : childPath dir name ≠ [] := by
  intro empty
  rcases childPath_length dir name with longer | full
  · simp [empty] at longer
  · simp [empty] at full

/-- An entry of a directory that can be made fits the buffer. -/
theorem child_room {dir name : CString} (short : dir.length < 512) (ok : NameOk name) :
    dir.length + 1 + name.length < 1024 := by
  have bound := ok.2.2.2.2
  omega

/-- A subtree of another entry is elsewhere. -/
theorem not_below_other {path : Path} {name other : CString} (different : name ≠ other)
    (rel : Path) : ¬ path ++ [name] <+: path ++ other :: rel := by
  rw [List.prefix_append_right_inj]
  intro below
  exact different (List.cons_prefix_cons.mp below).1

/-- Every directory above a place exists. -/
def Reached (files : Files) (place : Path) : Prop :=
  ∀ other, other <+: place → other ≠ place → files.IsDir other

/-- The entries of a directory are reached. -/
theorem reached_entry {files : Files} {dir : Path} (present : files.IsDir dir) (name : CString) :
    Reached files (dir ++ [name]) := by
  intro other way different
  exact present.above ((List.prefix_concat_iff.mp way).resolve_left different)

/-- A directory does not lie below its entries. -/
theorem not_below_self (path : Path) (name : CString) : ¬ path ++ [name] <+: path := by
  intro below
  have bound := below.length_le
  rw [List.length_append, List.length_singleton] at bound
  omega

/-! ## Directories -/

/-- What `mkdir` leaves: a new directory, or nothing new. -/
theorem get_mkdir (files : Files) (path : Path) (mode : Mode) (other : Path) :
    (mkdir files path mode).1.get other = files.get other ∨
      (other = path ∧ files.get other = none ∧
        (mkdir files path mode).1.get other = some (.dir mode)) := by
  unfold mkdir
  split
  · exact .inl rfl
  · split
    · rename_i able
      simp only [Files.get_make]
      by_cases same : other = path
      · subst same
        exact .inr ⟨rfl, able.2.2, if_pos rfl⟩
      · exact .inl (if_neg same)
    · exact .inl rfl

/-- The loop of `storage_mkdir_p` makes directories on the way only. -/
theorem get_mkdirs (mode : Mode) (above rest : Path) (files : Files) (other : Path) :
    (mkdirs mode above rest files).1.get other = files.get other ∨
      (other <+: above ++ rest ∧ files.get other = none ∧
        (mkdirs mode above rest files).1.get other = some (.dir mode)) := by
  induction rest generalizing above files with
  | nil => exact .inl rfl
  | cons name rest ih =>
    have whole : above ++ name :: rest = (above ++ [name]) ++ rest := by simp
    have one := get_mkdir files (above ++ [name]) mode other
    unfold mkdirs
    dsimp only
    split
    · rcases one with same | ⟨rfl, free, made⟩
      · exact .inl same
      · exact .inr ⟨by rw [whole]; exact List.prefix_append _ _, free, made⟩
    · rcases ih (above ++ [name]) (mkdir files (above ++ [name]) mode).1 with
        same | ⟨below, free, made⟩
      · rcases one with kept | ⟨rfl, free, made⟩
        · exact .inl (same.trans kept)
        · exact .inr ⟨by rw [whole]; exact List.prefix_append _ _, free, same.trans made⟩
      · rcases one with kept | ⟨rfl, -, dir⟩
        · exact .inr ⟨by rw [whole]; exact below, kept ▸ free, made⟩
        · rw [dir] at free
          cases free

/-- `storage_mkdir_p` makes directories on the way only, and only for a path below 512 bytes. -/
theorem get_storageMkdirP (files : Files) (path : CString) (mode : Mode) (other : Path) :
    (storageMkdirP cwd files path mode).1.get other = files.get other ∨
      (path.length < 512 ∧ other <+: resolve cwd path ∧ files.get other = none ∧
        (storageMkdirP cwd files path mode).1.get other = some (.dir mode)) := by
  by_cases long : 512 ≤ path.length
  · rw [storageMkdirP, if_pos long]
    exact .inl rfl
  · have made : (storageMkdirP cwd files path mode).1 =
        (mkdirs mode [] (resolve cwd path) files).1 := by
      rw [storageMkdirP, if_neg long]
      dsimp only
      split
      · rfl
      · split <;> rfl
    rw [made]
    rcases get_mkdirs mode [] (resolve cwd path) files other with same | new
    · exact .inl same
    · exact .inr ⟨Nat.lt_of_not_le long, new⟩

/-- A directory whose path is accepted exists afterwards. -/
theorem storageMkdirP_ok {files : Files} {path : CString} {mode : Mode}
    (success : (storageMkdirP cwd files path mode).2 = 0) :
    path.length < 512 ∧ (storageMkdirP cwd files path mode).1.IsDir (resolve cwd path) := by
  unfold storageMkdirP at success ⊢
  by_cases long : 512 ≤ path.length
  · rw [if_pos long] at success
    exact absurd success (show enametoolong ≠ 0 by decide)
  · rw [if_neg long] at success ⊢
    refine ⟨Nat.lt_of_not_le long, ?_⟩
    dsimp only at success ⊢
    split at success
    · rename_i failed
      exact absurd success failed
    · rename_i passed
      rw [if_neg passed]
      split at success
      · rename_i own found
        exact ⟨own, found⟩
      · exact absurd success (show enotdir ≠ 0 by decide)
      · exact absurd success (show enoent ≠ 0 by decide)

/-- The directories on the way to an existing object are there. -/
theorem mkdirs_existing {mode : Mode} {above rest : Path} {files : Files}
    (found : files.get (above ++ rest) ≠ none) : mkdirs mode above rest files = (files, 0) := by
  induction rest generalizing above with
  | nil => rfl
  | cons name rest ih =>
    have whole : above ++ name :: rest = (above ++ [name]) ++ rest := by simp
    rw [whole] at found
    have here : (files.get (above ++ [name])).isSome = true := by
      cases rest with
      | nil =>
        rw [List.append_nil] at found
        exact Option.isSome_iff_ne_none.mpr found
      | cons next rest =>
        obtain ⟨own, dir⟩ := Files.get_above found
        rw [dir]
        rfl
    unfold mkdirs mkdir
    rw [if_pos here]
    exact ih found

/-- The loop of `storage_mkdir_p` goes on from the directories it made. -/
theorem mkdirs_append (mode : Mode) (above front back : Path) (files : Files) :
    mkdirs mode above (front ++ back) files =
      if (mkdirs mode above front files).2 ≠ 0 then mkdirs mode above front files
      else mkdirs mode (above ++ front) back (mkdirs mode above front files).1 := by
  induction front generalizing above files with
  | nil => simp [mkdirs]
  | cons name front ih =>
    rw [List.cons_append, mkdirs, mkdirs]
    dsimp only
    split
    · rfl
    · rw [ih, List.append_assoc]
      rfl

/-- An existing directory with a short path is accepted as it is. -/
theorem storageMkdirP_existing {files : Files} {path : CString} {mode : Mode}
    (short : path.length < 512) (dir : files.IsDir (resolve cwd path)) :
    storageMkdirP cwd files path mode = (files, 0) := by
  obtain ⟨own, found⟩ := dir
  have there : files.get ([] ++ resolve cwd path) ≠ none := by
    rw [List.nil_append, found]
    exact Option.some_ne_none _
  rw [storageMkdirP, if_neg (by omega), mkdirs_existing there]
  simp [found]

/-- A new directory with a short path and a proper name is made in an existing one. -/
theorem storageMkdirP_new {files : Files} {path : CString} {mode : Mode}
    (short : path.length < 512) {above : Path} {name : CString}
    (place : resolve cwd path = above ++ [name]) (able : files.Makeable (above ++ [name])) :
    storageMkdirP cwd files path mode = (files.make (above ++ [name]) (.dir mode) able, 0) := by
  obtain ⟨-, ⟨own, dir⟩, free⟩ := Files.makeable_iff.mp able
  have there : files.get ([] ++ above) ≠ none := by
    rw [List.nil_append, dir]
    exact Option.some_ne_none _
  have last :
      mkdirs mode above [name] files = (files.make (above ++ [name]) (.dir mode) able, 0) := by
    have one : mkdir files (above ++ [name]) mode =
        (files.make (above ++ [name]) (.dir mode) able, 0) := by
      rw [mkdir, if_neg (by simp [free]), dif_pos able]
    simp [mkdirs, one]
  have loop : mkdirs mode [] (above ++ [name]) files =
      (files.make (above ++ [name]) (.dir mode) able, 0) := by
    rw [mkdirs_append, mkdirs_existing there]
    simpa using last
  rw [storageMkdirP, if_neg (by omega), place, loop]
  simp [Files.get_make]

/-- `chmod` changes one object. -/
theorem get_chmod (files : Files) (path : Path) (mode : Mode) {other : Path}
    (different : other ≠ path) : (chmod files path mode).get other = files.get other := by
  rw [chmod, Files.get_change, if_neg different]

/-- `chmod` gives a directory its mode. -/
theorem get_chmod_dir {files : Files} {path : Path} (mode : Mode) (dir : files.IsDir path) :
    (chmod files path mode).get path = some (.dir mode) := by
  obtain ⟨own, found⟩ := dir
  rw [chmod, Files.get_change, if_pos rfl, found]
  rfl

/-! ## What a copy writes -/

/-- An object at a path of so many bytes that a copy can write: the path of a directory fits
`storage_mkdir_p`, the target of a link the buffer it is read into. -/
def Copyable (bytes : Nat) : Obj → Prop
  | .dir _ => bytes < 512
  | .link target => target.length < 1024
  | _ => True

instance (bytes : Nat) (obj : Obj) : Decidable (Copyable bytes obj) := by
  unfold Copyable
  split <;> infer_instance

/-- Everything below a place whose path has so many bytes can be written by a copy. -/
def Fits (files : Files) (place : Path) (bytes : Nat) : Prop :=
  ∀ rel obj, files.get (place ++ rel) = some obj → Copyable (bytes + span rel) obj

/-- Only what a copy can write was written at and below a place. -/
abbrev CopyWrote (place : Path) (bytes : Nat) (before after : Files) : Prop :=
  Files.Wrote (fun rel obj => Copyable (bytes + span rel) obj) place before after

/-- A copied file. -/
theorem storageCopyFile_wrote (files : Files) (path : Path) (mode : Mode) (bytes : CString)
    (size : Nat) : CopyWrote path size files (storageCopyFile files path mode bytes).1 := by
  unfold storageCopyFile
  split
  · rename_i free
    split
    · rename_i able
      apply Files.wrote_one (.file mode bytes)
      · intro other different
        rw [Files.get_make, if_neg different]
      · rw [Files.get_make, if_pos rfl]
      · trivial
      · rintro ⟨own, dir⟩
        rw [free] at dir
        cases dir
    · exact .refl
  · rename_i own old found
    apply Files.wrote_one (.file mode bytes)
    · intro other different
      rw [Files.get_change, if_neg different]
    · rw [Files.get_change, if_pos rfl, found]
      rfl
    · trivial
    · rintro ⟨dirMode, dir⟩
      rw [found] at dir
      cases dir
  · exact .refl
  · exact .refl

/-- A copied link. -/
theorem symlink_wrote (files : Files) (target : CString) (path : Path) (size : Nat) :
    CopyWrote path size files (symlink files (readlink target) path).1 := by
  unfold symlink
  split
  · exact .refl
  · rename_i free
    split
    · rename_i able
      apply Files.wrote_one (.link (readlink target))
      · intro other different
        rw [Files.get_make, if_neg different]
      · rw [Files.get_make, if_pos rfl]
      · show (target.take 1023).length < 1024
        rw [List.length_take]
        omega
      · rintro ⟨own, dir⟩
        simp [dir] at free
    · exact .refl

/-- A directory made where those above it exist. -/
theorem storageMkdirP_wrote {files : Files} {path : CString} {mode : Mode}
    (above : Reached files (resolve cwd path)) :
    CopyWrote (resolve cwd path) path.length files (storageMkdirP cwd files path mode).1 := by
  intro other
  rcases get_storageMkdirP files path mode other with same | ⟨short, way, free, made⟩
  · exact .inl same
  · refine .inr ⟨[], .dir mode, ?_, made, short, fun _ => rfl⟩
    rw [List.append_nil]
    by_contra different
    obtain ⟨own, dir⟩ := above other way different
    rw [free] at dir
    cases dir

/-- A directory given its mode. -/
theorem chmod_wrote {files : Files} {path : Path} {mode : Mode} {size : Nat} (short : size < 512)
    (dir : files.IsDir path) : CopyWrote path size files (chmod files path mode) :=
  Files.wrote_one (.dir mode) (fun _ different => get_chmod files path mode different)
    (get_chmod_dir mode dir) short fun _ => rfl

/-- The loop over the entries writes below the directory what each copy writes at its entry. -/
theorem copyEntries_wrote {copy : Files → CString → CString → Files × Int} {src dst : CString}
    {names : List CString} {files : Files} (started : dst ≠ []) (short : dst.length < 512)
    (proper : ∀ name ∈ names, NameOk name) (dir : files.IsDir (resolve cwd dst))
    (each : ∀ files src dst, dst ≠ [] → Reached files (resolve cwd dst) →
      CopyWrote (resolve cwd dst) dst.length files (copy files src dst).1) :
    CopyWrote (resolve cwd dst) dst.length files (copyEntries copy src dst names files).1 := by
  induction names generalizing files with
  | nil => exact .refl
  | cons name rest ih =>
    have ok := proper name List.mem_cons_self
    have room := child_room short ok
    have place := @resolve_childPath cwd dst name started ok room
    have entry := each files (childPath src name) (childPath dst name) (childPath_ne_nil dst name)
      (place ▸ reached_entry dir name)
    rw [place, childPath_size room] at entry
    have here : CopyWrote (resolve cwd dst) dst.length files
        (copy files (childPath src name) (childPath dst name)).1 := by
      apply entry.entry
      intro rel obj fine
      rwa [span_cons, ← Nat.add_assoc]
    unfold copyEntries
    dsimp only
    split
    · exact here
    · exact here.trans
        (ih (fun other later => proper other (List.mem_cons_of_mem _ later)) (here.isDir dir))

/-- The copy of an object writes what the copy of a directory does, a file or a link. -/
theorem copyObject_wrote {directory : Files → CString → CString → Mode → Files × Int}
    {files : Files} {src dst : CString}
    (writes : ∀ mode, CopyWrote (resolve cwd dst) dst.length files
      (directory files src dst mode).1) :
    CopyWrote (resolve cwd dst) dst.length files (copyObject cwd directory files src dst).1 := by
  unfold copyObject
  split
  · exact .refl
  · exact writes _
  · exact storageCopyFile_wrote _ _ _ _ _
  · exact symlink_wrote _ _ _ _
  · exact .refl

/-- A copy writes at and below its destination, where the directories above it exist. -/
theorem copyTree_wrote {depth : Nat} {files : Files} {src dst : CString} (started : dst ≠ [])
    (above : Reached files (resolve cwd dst)) :
    CopyWrote (resolve cwd dst) dst.length files (copyTree cwd depth files src dst).1 := by
  induction depth generalizing files src dst with
  | zero => exact copyObject_wrote fun _ => .refl
  | succ depth ih =>
    apply copyObject_wrote
    intro mode
    -- the directory is made, filled by induction and given its mode
    have made := @storageMkdirP_wrote cwd files dst 448 above
    unfold copyDirectory
    dsimp only
    split
    · exact made
    · rename_i success
      obtain ⟨short, dir⟩ := storageMkdirP_ok (not_not.mp success)
      have filled := @copyEntries_wrote cwd (copyTree cwd depth) src dst
        ((storageMkdirP cwd files dst 448).1.names (resolve cwd src)) _ started short
        (fun name listed => (Files.get_parent (Files.mem_names.mp listed)).1) dir
        (fun files src dst started above => ih started above)
      split
      · exact made.trans filled
      · exact (made.trans filled).trans (chmod_wrote short (filled.isDir dir))

/-! ## Clearing a directory -/

/-- The loop of `storage_dir_clear` removes every entry with what is below it, and nothing else. -/
theorem clearEntries_clears {path : CString} {names : List CString} {files : Files}
    (started : path ≠ []) (short : path.length < 512) (distinct : names.Nodup)
    (listed : ∀ name ∈ names, files.get (resolve cwd path ++ [name]) ≠ none) :
    (clearEntries cwd path names files).2 = 0 ∧
      (∀ name ∈ names, ∀ rel,
        (clearEntries cwd path names files).1.get (resolve cwd path ++ name :: rel) = none) ∧
      ∀ other, (∀ name ∈ names, ¬ resolve cwd path ++ [name] <+: other) →
        (clearEntries cwd path names files).1.get other = files.get other := by
  induction names generalizing files with
  | nil => exact ⟨rfl, fun _ member => absurd member List.not_mem_nil, fun _ _ => rfl⟩
  | cons name rest ih =>
    rw [List.nodup_cons] at distinct
    have here := listed name List.mem_cons_self
    have ok := (Files.get_parent here).1
    have place := @resolve_childPath cwd path name started ok (child_room short ok)
    have different (later : CString) (member : later ∈ rest) : later ≠ name := by
      rintro rfl
      exact distinct.1 member
    obtain ⟨obj, found⟩ := Option.ne_none_iff_exists'.mp here
    have step : clearEntries cwd path (name :: rest) files =
        clearEntries cwd path rest (files.removeTree (resolve cwd path ++ [name])) := by
      rw [clearEntries, place, found]
    obtain ⟨done, removed, same⟩ := @ih (files.removeTree (resolve cwd path ++ [name])) distinct.2
      (fun later member => by
        rw [Files.get_removeTree, if_neg (not_below_other (different later member).symm [])]
        exact listed later (List.mem_cons_of_mem _ member))
    rw [step]
    refine ⟨done, fun entry member rel => ?_, fun other away => ?_⟩
    · rcases List.mem_cons.mp member with rfl | later
      · rw [same _ fun later there => not_below_other (different later there) rel,
          Files.get_removeTree, if_pos ⟨rel, by simp⟩]
      · exact removed entry later rel
    · rw [same other fun later member => away later (List.mem_cons_of_mem _ member),
        Files.get_removeTree, if_neg (away name List.mem_cons_self)]

/-- `storage_dir_clear` leaves an empty directory and the rest of the tree. -/
theorem storageDirClear_clears {path : CString} {files : Files} (started : path ≠ [])
    (short : path.length < 512) (dir : files.IsDir (resolve cwd path)) :
    (storageDirClear cwd files path).2 = 0 ∧
      (∀ name rel,
        (storageDirClear cwd files path).1.get (resolve cwd path ++ name :: rel) = none) ∧
      ∀ other, (∀ name, ¬ resolve cwd path ++ [name] <+: other) →
        (storageDirClear cwd files path).1.get other = files.get other := by
  obtain ⟨mode, found⟩ := dir
  have loop : storageDirClear cwd files path =
      clearEntries cwd path (files.names (resolve cwd path)) files := by
    rw [storageDirClear, found]
  obtain ⟨done, removed, same⟩ := @clearEntries_clears cwd path (files.names (resolve cwd path))
    files started short (Files.names_nodup _ _) (fun name listed => Files.mem_names.mp listed)
  rw [loop]
  refine ⟨done, fun name rel => ?_, fun other away => same other fun name _ => away name⟩
  by_cases listed : name ∈ files.names (resolve cwd path)
  · exact removed name listed rel
  · have missing : files.get (resolve cwd path ++ [name]) = none :=
      not_not.mp fun there => listed (Files.mem_names.mpr there)
    rw [same _ fun other member => ?_]
    · cases rel with
      | nil => exact missing
      | cons next rel =>
        rw [show resolve cwd path ++ name :: next :: rel =
          (resolve cwd path ++ [name]) ++ next :: rel by simp]
        apply Files.get_below
        rintro ⟨own, there⟩
        rw [missing] at there
        cases there
    · apply not_below_other
      rintro rfl
      exact listed member

end HwrunOs.Storage
