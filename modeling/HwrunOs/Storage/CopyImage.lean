import HwrunOs.Storage.CopySpec

/-!
# The image of a copied tree

A copy to a free place apart from its source leaves there what the source holds, and it succeeds
where every directory path has room. Both follow the recursion together: what a copy of an entry
leaves is what the loop over the entries needs for the next one.
-/

namespace HwrunOs.Storage

open HwrunOs.Bytes HwrunOs.Paths

variable {cwd : CString}

/-- What a copy leaves of an object: of a link what was read of its target, of a device nothing. -/
def copiedObj : Obj → Option Obj
  | .link target => some (.link (readlink target))
  | .special => none
  | other => some other

/-- A copy can start: the destination is free and apart from the source, and the paths of the
source fit their buffers. -/
structure Ready (cwd : CString) (files : Files) (src dst : CString) : Prop where
  /-- The source has a path. -/
  source : src ≠ []
  /-- The destination has a path. -/
  started : dst ≠ []
  /-- Neither lies in the other. -/
  apart : ¬ Overlap (resolve cwd src) (resolve cwd dst)
  /-- The destination can be made, or is a directory for a directory. -/
  place : files.Makeable (resolve cwd dst) ∨
    files.IsDir (resolve cwd dst) ∧ files.IsDir (resolve cwd src)
  /-- Nothing is below the destination. -/
  free : ∀ name rel, files.get (resolve cwd dst ++ name :: rel) = none
  /-- The paths of the source are not cut. -/
  readable : ∀ rel, files.get (resolve cwd src ++ rel) ≠ none → src.length + span rel < 1024

/-- The entries of a directory can be copied: its destination is a directory apart from it, and the
paths of the source fit their buffers. -/
structure Opened (cwd : CString) (files : Files) (src dst : CString) : Prop where
  /-- The source has a path. -/
  source : src ≠ []
  /-- The destination has a path. -/
  started : dst ≠ []
  /-- The destination has a path that `storage_mkdir_p` accepts. -/
  short : dst.length < 512
  /-- Neither lies in the other. -/
  apart : ¬ Overlap (resolve cwd src) (resolve cwd dst)
  /-- The destination is a directory. -/
  dir : files.IsDir (resolve cwd dst)
  /-- The paths of the source are not cut. -/
  readable : ∀ rel, files.get (resolve cwd src ++ rel) ≠ none → src.length + span rel < 1024

/-- The directory paths that a copy makes have room. -/
def HasRoom (cwd : CString) (files : Files) (src dst : CString) : Prop :=
  ∀ rel, files.IsDir (resolve cwd src ++ rel) → dst.length + span rel < 512

/-- A copy left the image of its source, and did not fail where it had room. -/
structure Copied (cwd : CString) (files : Files) (src dst : CString) (result : Files × Int) :
    Prop where
  /-- Where it succeeded, the destination holds what the source does. -/
  image : result.2 = 0 → ∀ rel, result.1.get (resolve cwd dst ++ rel) =
    (files.get (resolve cwd src ++ rel)).bind copiedObj
  /-- It succeeds where the source exists and its directories have room. -/
  success : files.get (resolve cwd src) ≠ none → HasRoom cwd files src dst → result.2 = 0

/-! ## The start of a copy -/

/-- The destination of a copy that can start is reached. -/
theorem Ready.reached {files : Files} {src dst : CString} (ready : Ready cwd files src dst) :
    Reached files (resolve cwd dst) := by
  rcases ready.place with able | ⟨dir, -⟩
  · obtain ⟨⟨name, last, -⟩, -⟩ := id able
    obtain ⟨filled, rfl⟩ := List.mem_getLast?_eq_getLast last
    rw [← List.dropLast_append_getLast filled] at able ⊢
    exact reached_entry (Files.makeable_iff.mp able).2.1 _
  · intro other way _
    exact dir.above way

/-- Places in two directories that are apart are apart. -/
theorem apart_below {first second : Path} (apart : ¬ Overlap first second) (rel other : Path) :
    ¬ Overlap (first ++ rel) (second ++ other) := by
  rintro (above | under)
  · exact apart (overlap_of_common ((List.prefix_append first rel).trans above)
      (List.prefix_append second other))
  · exact apart (overlap_of_common (List.prefix_append first rel)
      ((List.prefix_append second other).trans under))

/-- The copy of an entry can start when its directory was made and the entry is still free. -/
theorem Opened.ready {files : Files} {src dst name : CString} (opened : Opened cwd files src dst)
    (listed : files.get (resolve cwd src ++ [name]) ≠ none)
    (free : ∀ rel, files.get (resolve cwd dst ++ name :: rel) = none) :
    Ready cwd files (childPath src name) (childPath dst name) := by
  have ok := (Files.get_parent listed).1
  have fits := opened.readable [name] listed
  rw [span_cons, span_nil] at fits
  have room : src.length + 1 + name.length < 1024 := by omega
  have origin := @resolve_childPath cwd src name opened.source ok room
  have into := @resolve_childPath cwd dst name opened.started ok (child_room opened.short ok)
  refine ⟨childPath_ne_nil src name, childPath_ne_nil dst name, ?_, .inl ?_, ?_, ?_⟩
  · rw [origin, into]
    exact apart_below opened.apart [name] [name]
  · rw [into, Files.makeable_iff]
    exact ⟨ok, opened.dir, free []⟩
  · intro next rel
    rw [into, List.append_assoc]
    exact free (next :: rel)
  · intro rel found
    rw [origin, List.append_assoc] at found
    have bound := opened.readable (name :: rel) found
    rw [span_cons] at bound
    rw [childPath_size room]
    omega

/-! ## One object -/

/-- A leaf is copied by making its copy. -/
theorem copied_leaf {files : Files} {src dst : CString} {obj copy : Obj}
    (ready : Ready cwd files src dst) (found : files.get (resolve cwd src) = some obj)
    (leaf : obj.isDir = false) (copies : copiedObj obj = some copy)
    (able : files.Makeable (resolve cwd dst)) :
    Copied cwd files src dst (files.make (resolve cwd dst) copy able, 0) := by
  refine ⟨fun _ rel => ?_, fun _ _ => rfl⟩
  rw [Files.get_make]
  cases rel with
  | nil => simp [found, copies]
  | cons name rel =>
    have below : ¬ files.IsDir (resolve cwd src) := by
      rintro ⟨mode, dir⟩
      rw [found, Option.some.injEq] at dir
      rw [dir] at leaf
      cases leaf
    rw [Files.get_below below, if_neg (by simp), ready.free]
    rfl

/-- A place for what is not a directory can be made. -/
theorem Ready.makeable {files : Files} {src dst : CString} {obj : Obj}
    (ready : Ready cwd files src dst) (found : files.get (resolve cwd src) = some obj)
    (leaf : obj.isDir = false) : files.Makeable (resolve cwd dst) := by
  rcases ready.place with able | ⟨-, mode, dir⟩
  · exact able
  · rw [found, Option.some.injEq] at dir
    rw [dir] at leaf
    cases leaf

/-- The copy of an object leaves its image when the copy of a directory does. -/
theorem copyObject_copied {directory : Files → CString → CString → Mode → Files × Int}
    {files : Files} {src dst : CString} (ready : Ready cwd files src dst)
    (copies : ∀ mode, files.get (resolve cwd src) = some (.dir mode) →
      Copied cwd files src dst (directory files src dst mode)) :
    Copied cwd files src dst (copyObject cwd directory files src dst) := by
  unfold copyObject
  split
  · rename_i missing
    exact ⟨fun failed => absurd failed (show enoent ≠ 0 by decide),
      fun present => absurd missing present⟩
  · exact copies _ (by assumption)
  · rename_i mode bytes found
    have able := ready.makeable found rfl
    rw [storageCopyFile, able.2.2]
    simp only [dif_pos able]
    exact copied_leaf ready found rfl rfl able
  · rename_i target found
    have able := ready.makeable found rfl
    rw [symlink, able.2.2]
    simp only [dif_pos able]
    exact copied_leaf ready found rfl rfl able
  · rename_i found
    have able := ready.makeable found rfl
    refine ⟨fun _ rel => ?_, fun _ _ => rfl⟩
    cases rel with
    | nil => simp [found, able.2.2, copiedObj]
    | cons name rel =>
      have below : ¬ files.IsDir (resolve cwd src) := by
        rintro ⟨mode, dir⟩
        rw [found] at dir
        cases dir
      rw [Files.get_below below, ready.free]
      rfl

/-! ## The entries of a directory -/

/-- What the loop over the entries leaves: elsewhere nothing new, the image of every entry where it
succeeded, and success where there is room. -/
structure Filled (cwd : CString) (files : Files) (src dst : CString) (names : List CString)
    (result : Files × Int) : Prop where
  /-- What is not at or below an entry is as before. -/
  outside : ∀ other, (∀ name ∈ names, ¬ resolve cwd dst ++ [name] <+: other) →
    result.1.get other = files.get other
  /-- Every entry is copied where the loop succeeded. -/
  image : result.2 = 0 → ∀ name ∈ names, ∀ rel,
    result.1.get (resolve cwd dst ++ name :: rel) =
      (files.get (resolve cwd src ++ name :: rel)).bind copiedObj
  /-- The loop succeeds where there is room. -/
  success : HasRoom cwd files src dst → result.2 = 0

/-- The loop copies entry after entry: a copy writes below its own entry only, so the source and
the places of the later entries stay as they were. -/
theorem copyEntries_filled {depth : Nat} {src dst : CString} {names : List CString}
    {files : Files}
    (copies : ∀ files src dst, 512 ≤ dst.length + depth → Ready cwd files src dst →
      Copied cwd files src dst (copyTree cwd depth files src dst))
    (deep : 512 ≤ dst.length + (depth + 1)) (opened : Opened cwd files src dst)
    (distinct : names.Nodup)
    (listed : ∀ name ∈ names, files.get (resolve cwd src ++ [name]) ≠ none)
    (free : ∀ name ∈ names, ∀ rel, files.get (resolve cwd dst ++ name :: rel) = none) :
    Filled cwd files src dst names (copyEntries (copyTree cwd depth) src dst names files) := by
  induction names generalizing files with
  | nil => exact ⟨fun _ _ => rfl, fun _ _ member => absurd member List.not_mem_nil, fun _ => rfl⟩
  | cons name rest ih =>
    rw [List.nodup_cons] at distinct
    have here := listed name List.mem_cons_self
    have ok := (Files.get_parent here).1
    have size := childPath_size (child_room opened.short ok)
    have fits := opened.readable [name] here
    rw [span_cons, span_nil] at fits
    have origin := @resolve_childPath cwd src name opened.source ok (by omega)
    have into := @resolve_childPath cwd dst name opened.started ok (child_room opened.short ok)
    have ready := opened.ready here (free name List.mem_cons_self)
    have one := copies files (childPath src name) (childPath dst name) (by omega) ready
    have wrote := @copyTree_wrote cwd depth files (childPath src name) (childPath dst name)
      ready.started ready.reached
    rw [into] at wrote
    unfold copyEntries
    generalize copyTree cwd depth files (childPath src name) (childPath dst name) = result
      at one wrote
    -- what the first copy leaves of the source and of the other places
    have kept (rel : Path) :
        result.1.get (resolve cwd src ++ rel) = files.get (resolve cwd src ++ rel) := by
      apply wrote.outside
      intro below
      exact opened.apart (overlap_of_common (List.prefix_append _ rel)
        ((List.prefix_append _ [name]).trans below))
    have different (later : CString) (member : later ∈ rest) : name ≠ later := by
      rintro rfl
      exact distinct.1 member
    have next := @ih result.1
      ⟨opened.source, opened.started, opened.short, opened.apart, wrote.isDir opened.dir,
        fun rel found => opened.readable rel (kept rel ▸ found)⟩
      distinct.2
      (fun later member => by
        rw [kept]
        exact listed later (List.mem_cons_of_mem _ member))
      (fun later member rel => by
        rw [wrote.outside (not_below_other (different later member) rel)]
        exact free later (List.mem_cons_of_mem _ member) rel)
    have image (passed : result.2 = 0) (rel : Path) :
        result.1.get (resolve cwd dst ++ name :: rel) =
          (files.get (resolve cwd src ++ name :: rel)).bind copiedObj := by
      have copied := one.image passed rel
      rwa [into, origin, List.append_assoc, List.append_assoc] at copied
    have success (room : HasRoom cwd files src dst) : result.2 = 0 := by
      apply one.success
      · rwa [origin]
      · intro rel below
        rw [origin, List.append_assoc] at below
        have bound := room (name :: rel) below
        rw [span_cons] at bound
        omega
    dsimp only
    split
    · rename_i failed
      refine ⟨fun other away => ?_, fun passed => absurd passed failed,
        fun room => absurd (success room) failed⟩
      exact wrote.outside (away name List.mem_cons_self)
    · rename_i passed
      have passed := not_not.mp passed
      refine ⟨fun other away => ?_, fun finished entry member rel => ?_, fun room => ?_⟩
      · rw [next.outside other fun later member => away later (List.mem_cons_of_mem _ member)]
        exact wrote.outside (away name List.mem_cons_self)
      · rcases List.mem_cons.mp member with rfl | later
        · rw [next.outside _ fun later there => not_below_other (different later there).symm rel,
            image passed]
        · rw [next.image finished entry later, kept]
      · apply next.success
        rintro rel ⟨mode, found⟩
        exact room rel ⟨mode, (kept rel).symm.trans found⟩

/-! ## Directories and whole trees -/

/-- The directory that a copy makes first is the only change of it. -/
theorem Ready.makes {files : Files} {src dst : CString} {mode : Mode}
    (ready : Ready cwd files src dst) (short : dst.length < 512) :
    (storageMkdirP cwd files dst mode).2 = 0 ∧
      ∀ other, other ≠ resolve cwd dst →
        (storageMkdirP cwd files dst mode).1.get other = files.get other := by
  rcases ready.place with able | ⟨dir, -⟩
  · obtain ⟨⟨name, last, -⟩, -⟩ := id able
    obtain ⟨filled, rfl⟩ := List.mem_getLast?_eq_getLast last
    have place := (List.dropLast_append_getLast filled).symm
    rw [storageMkdirP_new short place (place ▸ able)]
    refine ⟨rfl, fun other different => ?_⟩
    rw [Files.get_make, if_neg (place ▸ different)]
  · rw [storageMkdirP_existing short dir]
    exact ⟨rfl, fun _ _ => rfl⟩

/-- The copy of a directory, given what copies of its entries leave. -/
theorem copyDirectory_copied {depth : Nat} {files : Files} {src dst : CString} {mode : Mode}
    (copies : ∀ files src dst, 512 ≤ dst.length + depth → Ready cwd files src dst →
      Copied cwd files src dst (copyTree cwd depth files src dst))
    (deep : 512 ≤ dst.length + (depth + 1)) (ready : Ready cwd files src dst)
    (found : files.get (resolve cwd src) = some (.dir mode)) :
    Copied cwd files src dst (copyDirectory cwd (copyTree cwd depth) files src dst mode) := by
  by_cases short : dst.length < 512
  · obtain ⟨passed, same⟩ := @Ready.makes cwd files src dst 448 ready short
    have dir := (storageMkdirP_ok passed).2
    unfold copyDirectory
    dsimp only
    rw [if_neg (not_not.mpr passed)]
    generalize (storageMkdirP cwd files dst 448).1 = middle at dir same
    have kept (rel : Path) :
        middle.get (resolve cwd src ++ rel) = files.get (resolve cwd src ++ rel) := by
      apply same
      intro here
      exact ready.apart (.inl (here ▸ List.prefix_append _ rel))
    have free (name : CString) (rel : Path) :
        middle.get (resolve cwd dst ++ name :: rel) = none := by
      rw [same _ (by simp)]
      exact ready.free name rel
    have filled := @copyEntries_filled cwd depth src dst (middle.names (resolve cwd src)) middle
      copies deep
      ⟨ready.source, ready.started, short, ready.apart, dir,
        fun rel there => ready.readable rel (kept rel ▸ there)⟩
      (Files.names_nodup _ _) (fun name listed => Files.mem_names.mp listed)
      (fun name _ rel => free name rel)
    have room (has : HasRoom cwd files src dst) : HasRoom cwd middle src dst := by
      rintro rel ⟨own, there⟩
      exact has rel ⟨own, (kept rel).symm.trans there⟩
    generalize copyEntries (copyTree cwd depth) src dst (middle.names (resolve cwd src)) middle =
      result at filled
    split
    · rename_i failed
      exact ⟨fun passed => absurd passed failed,
        fun _ has => absurd (filled.success (room has)) failed⟩
    · rename_i finished
      have finished := not_not.mp finished
      refine ⟨fun _ rel => ?_, fun _ _ => rfl⟩
      cases rel with
      | nil =>
        have still : result.1.IsDir (resolve cwd dst) :=
          dir.same (filled.outside _ fun name _ => not_below_self _ name)
        rw [List.append_nil, List.append_nil, get_chmod_dir mode still, found]
        rfl
      | cons name rel =>
        rw [get_chmod _ _ _ (by simp)]
        by_cases listed : name ∈ middle.names (resolve cwd src)
        · rw [filled.image finished name listed rel, kept]
        · have missing : files.get (resolve cwd src ++ name :: rel) = none := by
            by_contra there
            apply listed
            rw [Files.mem_names, kept]
            cases rel with
            | nil => exact there
            | cons next rel =>
              rw [show resolve cwd src ++ name :: next :: rel =
                (resolve cwd src ++ [name]) ++ next :: rel by simp] at there
              obtain ⟨own, above⟩ := Files.get_above there
              rw [above]
              exact Option.some_ne_none _
          have away : ∀ other ∈ middle.names (resolve cwd src),
              ¬ resolve cwd dst ++ [other] <+: resolve cwd dst ++ name :: rel := by
            intro other member
            apply not_below_other
            rintro rfl
            exact listed member
          rw [filled.outside _ away, free, missing]
          rfl
  · rw [copyDirectory_long (by omega)]
    refine ⟨fun passed => absurd passed (show enametoolong ≠ 0 by decide), fun _ has => ?_⟩
    have bound := has [] ⟨mode, by rwa [List.append_nil]⟩
    exact absurd bound (by simpa using short)

/-- A copy that can start leaves the image of its source where it succeeds, and it succeeds where
the directory paths have room. -/
theorem copyTree_copied {depth : Nat} {files : Files} {src dst : CString}
    (deep : 512 ≤ dst.length + depth) (ready : Ready cwd files src dst) :
    Copied cwd files src dst (copyTree cwd depth files src dst) := by
  induction depth generalizing files src dst with
  | zero =>
    apply copyObject_copied ready
    intro mode found
    refine ⟨fun passed => absurd passed (show enametoolong ≠ 0 by decide), fun _ has => ?_⟩
    have bound := has [] ⟨mode, by rwa [List.append_nil]⟩
    rw [span_nil] at bound
    omega
  | succ depth ih =>
    apply copyObject_copied ready
    intro mode found
    exact copyDirectory_copied (fun files src dst deep ready => ih deep ready) deep ready found

/-! ## A copy into its own source -/

/-- Where the loop over the entries succeeded, every entry was copied, each from a tree that kept
what all copies keep. -/
theorem copyEntries_each {copy : Files → CString → CString → Files × Int} {src dst : CString}
    {names : List CString} {files : Files} {keeps : Files → Prop} (start : keeps files)
    (step : ∀ files, ∀ name ∈ names, keeps files →
      keeps (copy files (childPath src name) (childPath dst name)).1)
    (success : (copyEntries copy src dst names files).2 = 0) :
    ∀ name ∈ names, ∃ files, keeps files ∧
      (copy files (childPath src name) (childPath dst name)).2 = 0 := by
  induction names generalizing files with
  | nil => exact fun _ member => absurd member List.not_mem_nil
  | cons name rest ih =>
    unfold copyEntries at success
    dsimp only at success
    split at success
    · rename_i failed
      exact absurd success failed
    · rename_i passed
      intro entry member
      rcases List.mem_cons.mp member with rfl | later
      · exact ⟨files, start, not_not.mp passed⟩
      · exact ih (step files name List.mem_cons_self start)
          (fun files later member => step files later (List.mem_cons_of_mem _ member)) success
          entry later

/-- A copy into its own source never succeeds: it meets its own destination again, one level
deeper each time. -/
theorem copyTree_nested {depth : Nat} {files : Files} {src dst : CString} {inner : Path}
    (source : src ≠ []) (started : dst ≠ [])
    (inside : resolve cwd dst = resolve cwd src ++ inner) (proper : inner ≠ [])
    (dir : files.IsDir (resolve cwd src))
    (narrow : ∀ name ∈ inner, src.length + name.length ≤ 511 + dst.length) :
    (copyTree cwd depth files src dst).2 ≠ 0 := by
  induction depth generalizing files src dst inner with
  | zero =>
    obtain ⟨mode, found⟩ := dir
    rw [copyTree, copyObject, found]
    exact show enametoolong ≠ 0 by decide
  | succ depth ih =>
    intro success
    obtain ⟨mode, found⟩ := dir
    rw [copyTree, copyObject, found] at success
    simp only [copyDirectory] at success
    split at success
    · rename_i failed
      exact failed success
    · rename_i made
      obtain ⟨short, dir⟩ := storageMkdirP_ok (not_not.mp made)
      split at success
      · rename_i failed
        exact failed success
      · rename_i finished
        obtain ⟨first, rest, rfl⟩ := List.exists_cons_of_ne_nil proper
        -- the entry that leads to the destination is among those copied
        have entered (files : Files) (dir : files.IsDir (resolve cwd dst)) :
            files.IsDir (resolve cwd src ++ [first]) := by
          rw [inside] at dir
          exact dir.above ⟨rest, by simp⟩
        have listed : first ∈ (storageMkdirP cwd files dst 448).1.names (resolve cwd src) := by
          rw [Files.mem_names]
          exact (entered _ dir).found
        obtain ⟨later, still, copied⟩ := @copyEntries_each (copyTree cwd depth) src dst
          ((storageMkdirP cwd files dst 448).1.names (resolve cwd src)) _
          (fun files => files.IsDir (resolve cwd dst)) dir
          (fun files name member dir => by
            have ok := (Files.get_parent (Files.mem_names.mp member)).1
            have wrote := @copyTree_wrote cwd depth files (childPath src name)
              (childPath dst name) (childPath_ne_nil dst name)
              (by
                rw [resolve_childPath started ok (child_room short ok)]
                exact reached_entry dir name)
            exact wrote.isDir dir)
          (not_not.mp finished) first listed
        have ok := (Files.get_parent (Files.mem_names.mp listed)).1
        have bound := narrow first List.mem_cons_self
        have room : src.length + 1 + first.length < 1024 := by omega
        have origin := @resolve_childPath cwd src first source ok room
        have into := @resolve_childPath cwd dst first started ok (child_room short ok)
        refine @ih later (childPath src first) (childPath dst first) (rest ++ [first])
          (childPath_ne_nil src first) (childPath_ne_nil dst first) ?_ (by simp) ?_ ?_ copied
        · rw [into, origin, inside]
          simp
        · rw [origin]
          exact entered later still
        · intro name member
          have among : name ∈ first :: rest := by simpa [or_comm] using member
          have old := narrow name among
          rw [childPath_size room, childPath_size (child_room short ok)]
          omega

end HwrunOs.Storage
