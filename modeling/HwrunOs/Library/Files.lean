import Mathlib.Data.List.Nodup
import HwrunOs.Library.Paths

/-!
# File trees

A file tree is the list of its objects with their resolved paths. Every object but the root lies
in a directory that exists, and no path occurs twice, so a tree that is not well-formed cannot be
built. The operations are those a program has: look an object up, list a directory, make a new
object, change an object in place, remove a subtree. Each has one lemma that says what is found
after it.
-/

namespace HwrunOs.Paths

open HwrunOs.Bytes

/-! ## Objects -/

/-- The permission bits of an object. -/
abbrev Mode := Fin 4096

/-- What exists at a path. -/
inductive Obj where
  /-- A directory. -/
  | dir (mode : Mode)
  /-- A regular file with its bytes. -/
  | file (mode : Mode) (bytes : CString)
  /-- A symbolic link. -/
  | link (target : CString)
  /-- A device, a pipe or a socket. -/
  | special
  deriving DecidableEq

/-- The object is a directory. -/
def Obj.isDir : Obj → Bool
  | .dir _ => true
  | _ => false

/-- A name that a directory entry can have. -/
def NameOk (name : CString) : Prop :=
  name ≠ [] ∧ 47 ∉ name ∧ name ≠ lit "." ∧ name ≠ lit ".." ∧ name.length ≤ 255

instance (name : CString) : Decidable (NameOk name) := inferInstanceAs (Decidable (_ ∧ _))

/-- The objects of a file system. -/
structure Files where
  /-- The objects with their paths, in the order in which directories list them. -/
  nodes : List (Path × Obj)
  /-- No path occurs twice. -/
  unique : (nodes.map Prod.fst).Nodup
  /-- Objects have proper names and lie in directories. -/
  nested : ∀ path name, path ++ [name] ∈ nodes.map Prod.fst →
    NameOk name ∧ ∃ mode, (path, Obj.dir mode) ∈ nodes

namespace Files

/-- The object at a path. -/
def get (files : Files) (path : Path) : Option Obj :=
  (files.nodes.find? fun node => node.1 = path).map Prod.snd

/-- The names in a directory. -/
def names (files : Files) (dir : Path) : List CString :=
  files.nodes.filterMap fun node =>
    if node.1.dropLast = dir then node.1.getLast? else none

/-- A directory exists at the path. -/
def IsDir (files : Files) (path : Path) : Prop := ∃ mode, files.get path = some (.dir mode)

/-! ## Looking up -/

/-- An object is found exactly when it is listed. -/
theorem get_eq_some {files : Files} {path : Path} {obj : Obj} :
    files.get path = some obj ↔ (path, obj) ∈ files.nodes := by
  constructor
  · intro found
    obtain ⟨⟨other, own⟩, search, rfl⟩ := Option.map_eq_some_iff.mp found
    have named : other = path := by simpa using List.find?_some search
    subst named
    exact List.mem_of_find?_eq_some search
  · intro listed
    unfold get
    cases search : files.nodes.find? fun node => node.1 = path with
    | none =>
      have missed := List.find?_eq_none.mp search (path, obj) listed
      simp at missed
    | some node =>
      have named : node.1 = path := by simpa using List.find?_some search
      have same := List.inj_on_of_nodup_map files.unique (List.mem_of_find?_eq_some search) listed
        named
      simp [same]

/-- Nothing is found exactly at the paths that are not listed. -/
theorem get_eq_none {files : Files} {path : Path} :
    files.get path = none ↔ path ∉ files.nodes.map Prod.fst := by
  rw [get, Option.map_eq_none_iff, List.find?_eq_none]
  constructor
  · intro missed listed
    obtain ⟨node, member, named⟩ := List.mem_map.mp listed
    have other := missed node member
    simp [named] at other
  · intro absent node member here
    exact absent (List.mem_map.mpr ⟨node, member, by simpa using here⟩)

/-- Two trees with the same objects find the same. -/
theorem get_congr {first second : Files} {path : Path}
    (same : ∀ obj, (path, obj) ∈ first.nodes ↔ (path, obj) ∈ second.nodes) :
    first.get path = second.get path := by
  apply Option.ext
  intro obj
  rw [get_eq_some, get_eq_some]
  exact same obj

/-- What exists has a proper name and lies in a directory. -/
theorem get_parent {files : Files} {path : Path} {name : CString}
    (found : files.get (path ++ [name]) ≠ none) : NameOk name ∧ files.IsDir path := by
  have listed : path ++ [name] ∈ files.nodes.map Prod.fst :=
    not_not.mp fun absent => found (get_eq_none.mpr absent)
  obtain ⟨ok, mode, parent⟩ := files.nested path name listed
  exact ⟨ok, mode, get_eq_some.mpr parent⟩

/-- Everything above an object is a directory. -/
theorem get_above {files : Files} {path : Path} {name : CString} {rest : Path}
    (found : files.get (path ++ name :: rest) ≠ none) : files.IsDir path := by
  induction rest using List.reverseRecOn with
  | nil => exact (get_parent found).2
  | append_singleton rest last ih =>
    apply ih
    have whole : path ++ name :: (rest ++ [last]) = (path ++ name :: rest) ++ [last] := by simp
    rw [whole] at found
    obtain ⟨mode, dir⟩ := (get_parent found).2
    rw [dir]
    exact Option.some_ne_none _

/-- What lies on the way to a directory is one. -/
theorem IsDir.above {files : Files} {path other : Path} (dir : files.IsDir path)
    (way : other <+: path) : files.IsDir other := by
  obtain ⟨rest, rfl⟩ := way
  cases rest with
  | nil => rwa [List.append_nil] at dir
  | cons name rest =>
    obtain ⟨mode, found⟩ := dir
    apply get_above
    rw [found]
    exact Option.some_ne_none _

/-- Where another tree finds the same, it finds the directory too. -/
theorem IsDir.same {files other : Files} {path : Path} (dir : files.IsDir path)
    (same : other.get path = files.get path) : other.IsDir path := by
  obtain ⟨mode, found⟩ := dir
  exact ⟨mode, same.trans found⟩

/-- A directory is found. -/
theorem IsDir.found {files : Files} {path : Path} (dir : files.IsDir path) :
    files.get path ≠ none := by
  obtain ⟨mode, found⟩ := dir
  rw [found]
  exact Option.some_ne_none _

/-- Nothing lies below what is not a directory. -/
theorem get_below {files : Files} {path : Path} (leaf : ¬ files.IsDir path) (name : CString)
    (rest : Path) : files.get (path ++ name :: rest) = none := by
  by_contra found
  exact leaf (get_above found)

/-- A listed name is one that is found. -/
theorem mem_names {files : Files} {dir : Path} {name : CString} :
    name ∈ files.names dir ↔ files.get (dir ++ [name]) ≠ none := by
  rw [Ne, get_eq_none, not_not, names, List.mem_filterMap]
  constructor
  · rintro ⟨⟨path, obj⟩, listed, here⟩
    split at here
    · rename_i parent
      obtain ⟨filled, rfl⟩ := List.mem_getLast?_eq_getLast here
      refine List.mem_map.mpr ⟨(path, obj), listed, ?_⟩
      simp only at parent
      rw [← parent, List.dropLast_append_getLast filled]
    · cases here
  · intro listed
    obtain ⟨⟨path, obj⟩, member, rfl⟩ := List.mem_map.mp listed
    exact ⟨_, member, by simp⟩

/-- A directory lists no name twice. -/
theorem names_nodup (files : Files) (dir : Path) : (files.names dir).Nodup := by
  have distinct := files.unique
  unfold names
  generalize files.nodes = nodes at distinct
  induction nodes with
  | nil => exact List.nodup_nil
  | cons node rest ih =>
    rw [List.map_cons, List.nodup_cons] at distinct
    have later := ih distinct.2
    rw [List.filterMap_cons]
    split
    · exact later
    · rename_i name here
      rw [List.nodup_cons]
      refine ⟨?_, later⟩
      intro again
      obtain ⟨other, member, there⟩ := List.mem_filterMap.mp again
      have place (node : Path × Obj)
          (found : (if node.1.dropLast = dir then node.1.getLast? else none) = some name) :
          node.1 = dir ++ [name] := by
        split at found
        · rename_i parent
          obtain ⟨filled, last⟩ := List.mem_getLast?_eq_getLast found
          rw [← parent, last, List.dropLast_append_getLast filled]
        · cases found
      apply distinct.1
      rw [place node here, ← place other there]
      exact List.mem_map_of_mem member

/-! ## Making -/

/-- A new object can be made at the path: its name is proper, its directory exists, and nothing is
there. -/
def Makeable (files : Files) (path : Path) : Prop :=
  (∃ name ∈ path.getLast?, NameOk name) ∧
    (∃ obj ∈ files.get path.dropLast, obj.isDir = true) ∧ files.get path = none

instance (files : Files) (path : Path) : Decidable (files.Makeable path) :=
  inferInstanceAs (Decidable ((∃ _ ∈ _, _) ∧ (∃ _ ∈ _, _) ∧ _))

/-- A name below a directory can be made when it is proper and free. -/
theorem makeable_iff {files : Files} {path : Path} {name : CString} :
    files.Makeable (path ++ [name]) ↔
      NameOk name ∧ files.IsDir path ∧ files.get (path ++ [name]) = none := by
  have directory : (∃ obj ∈ files.get path, obj.isDir = true) ↔ files.IsDir path := by
    constructor
    · rintro ⟨obj, found, dir⟩
      cases obj with
      | dir mode => exact ⟨mode, found⟩
      | _ => cases dir
    · rintro ⟨mode, found⟩
      exact ⟨.dir mode, found, rfl⟩
  unfold Makeable
  rw [List.dropLast_concat, directory]
  simp

/-- A new object. -/
def make (files : Files) (path : Path) (obj : Obj) (able : files.Makeable path) : Files where
  nodes := (path, obj) :: files.nodes
  unique := by
    rw [List.map_cons, List.nodup_cons]
    exact ⟨get_eq_none.mp able.2.2, files.unique⟩
  nested := by
    intro parent name listed
    rw [List.map_cons, List.mem_cons] at listed
    rcases listed with same | old
    · have same : parent ++ [name] = path := same
      rw [← same, makeable_iff] at able
      obtain ⟨ok, ⟨mode, dir⟩, -⟩ := able
      exact ⟨ok, mode, List.mem_cons_of_mem _ (get_eq_some.mp dir)⟩
    · obtain ⟨ok, mode, dir⟩ := files.nested parent name old
      exact ⟨ok, mode, List.mem_cons_of_mem _ dir⟩

/-- After a new object is made it is found, and everything else as before. -/
theorem get_make {files : Files} {path : Path} {obj : Obj} (able : files.Makeable path)
    (other : Path) :
    (files.make path obj able).get other = if other = path then some obj else files.get other := by
  by_cases same : path = other
  · simp [get, make, same]
  · have different : ¬ other = path := fun equal => same equal.symm
    simp [get, make, same, different]

/-! ## Changing -/

/-- Change the object at a path in place; a directory stays one. -/
def change (files : Files) (path : Path) (edit : Obj → Obj)
    (keeps : ∀ mode, ∃ new, edit (.dir mode) = .dir new) : Files where
  nodes := files.nodes.map fun node => if node.1 = path then (node.1, edit node.2) else node
  unique := by
    have same : (files.nodes.map fun node =>
        if node.1 = path then (node.1, edit node.2) else node).map Prod.fst =
        files.nodes.map Prod.fst := by
      rw [List.map_map]
      apply List.map_congr_left
      intro node _
      by_cases here : node.1 = path <;> simp [here]
    rw [same]
    exact files.unique
  nested := by
    intro parent name listed
    have old : parent ++ [name] ∈ files.nodes.map Prod.fst := by
      obtain ⟨node, member, named⟩ := List.mem_map.mp listed
      obtain ⟨before, among, rfl⟩ := List.mem_map.mp member
      refine List.mem_map.mpr ⟨before, among, ?_⟩
      rw [← named]
      split <;> rfl
    obtain ⟨ok, mode, dir⟩ := files.nested parent name old
    refine ⟨ok, ?_⟩
    by_cases here : parent = path
    · obtain ⟨new, kept⟩ := keeps mode
      exact ⟨new, List.mem_map.mpr ⟨(parent, .dir mode), dir, by rw [if_pos here, kept]⟩⟩
    · exact ⟨mode, List.mem_map.mpr ⟨(parent, .dir mode), dir, if_neg here⟩⟩

/-- After a change the changed object is found, and everything else as before. -/
theorem get_change {files : Files} {path : Path} {edit : Obj → Obj}
    (keeps : ∀ mode, ∃ new, edit (.dir mode) = .dir new) (other : Path) :
    (files.change path edit keeps).get other =
      if other = path then (files.get other).map edit else files.get other := by
  have search : (files.change path edit keeps).nodes.find? (fun node => node.1 = other) =
      (files.nodes.find? fun node => node.1 = other).map
        fun node => if node.1 = path then (node.1, edit node.2) else node := by
    show (files.nodes.map _).find? _ = _
    rw [List.find?_map]
    congr 1
    congr 1
    funext node
    by_cases here : node.1 = path <;> simp [here]
  unfold get
  rw [search]
  cases found : files.nodes.find? fun node => node.1 = other with
  | none => simp
  | some node =>
    have named : node.1 = other := by simpa using List.find?_some found
    by_cases here : other = path <;> simp [named, here]

/-! ## Removing -/

/-- Remove the objects whose paths meet a condition that passes on downwards. -/
def drop (files : Files) (gone : Path → Bool)
    (downwards : ∀ path name, gone path = true → gone (path ++ [name]) = true) : Files where
  nodes := files.nodes.filter fun node => !gone node.1
  unique := files.unique.sublist (List.Sublist.map _ List.filter_sublist)
  nested := by
    intro parent name listed
    obtain ⟨node, member, named⟩ := List.mem_map.mp listed
    obtain ⟨old, kept⟩ := List.mem_filter.mp member
    obtain ⟨ok, mode, dir⟩ := files.nested parent name (List.mem_map.mpr ⟨node, old, named⟩)
    refine ⟨ok, mode, List.mem_filter.mpr ⟨dir, ?_⟩⟩
    by_contra removed
    have below := downwards parent name (by simpa using removed)
    rw [named] at kept
    simp [below] at kept

/-- After a removal nothing is found at the removed paths, and everything else as before. -/
theorem get_drop {files : Files} {gone : Path → Bool}
    (downwards : ∀ path name, gone path = true → gone (path ++ [name]) = true) (path : Path) :
    (files.drop gone downwards).get path = if gone path then none else files.get path := by
  by_cases removed : gone path = true
  · rw [if_pos removed, get_eq_none]
    intro listed
    obtain ⟨node, member, named⟩ := List.mem_map.mp listed
    have kept := (List.mem_filter.mp member).2
    rw [named, removed] at kept
    cases kept
  · rw [if_neg removed]
    apply get_congr
    intro obj
    show (path, obj) ∈ files.nodes.filter _ ↔ _
    rw [List.mem_filter]
    simp [removed]

/-- A subtree: an object with everything below it. -/
def removeTree (files : Files) (path : Path) : Files :=
  files.drop (fun other => decide (path <+: other)) fun other name below => by
    simp only [decide_eq_true_eq] at below ⊢
    exact below.trans (List.prefix_append other [name])

/-- After a subtree is removed. -/
theorem get_removeTree (files : Files) (path other : Path) :
    (files.removeTree path).get other = if path <+: other then none else files.get other := by
  rw [removeTree, get_drop]
  simp

/-! ## Writing below a place -/

/-- From one tree to another only objects at and below a place were written, each as its path below
the place allows, and directories stayed directories. -/
def Wrote (allowed : Path → Obj → Prop) (place : Path) (before after : Files) : Prop :=
  ∀ other, after.get other = before.get other ∨
    ∃ rel obj, other = place ++ rel ∧ after.get other = some obj ∧ allowed rel obj ∧
      (before.IsDir other → obj.isDir = true)

section Wrote

variable {allowed : Path → Obj → Prop} {place : Path} {before middle after : Files}

/-- Nothing was written. -/
theorem Wrote.refl : Wrote allowed place before before := fun _ => .inl rfl

/-- A directory stays one. -/
theorem Wrote.isDir (wrote : Wrote allowed place before after) {path : Path}
    (dir : before.IsDir path) : after.IsDir path := by
  rcases wrote path with same | ⟨rel, obj, -, found, -, kept⟩
  · obtain ⟨mode, there⟩ := dir
    exact ⟨mode, same.trans there⟩
  · have directory := kept dir
    cases obj with
    | dir mode => exact ⟨mode, found⟩
    | _ => cases directory

/-- Writes follow each other. -/
theorem Wrote.trans (first : Wrote allowed place before middle)
    (second : Wrote allowed place middle after) : Wrote allowed place before after := by
  intro other
  rcases second other with same | ⟨rel, obj, below, found, fine, kept⟩
  · rcases first other with old | ⟨rel, obj, below, found, fine, kept⟩
    · exact .inl (same.trans old)
    · exact .inr ⟨rel, obj, below, same.trans found, fine, kept⟩
  · exact .inr ⟨rel, obj, below, found, fine, fun dir => kept (first.isDir dir)⟩

/-- What is elsewhere is as before. -/
theorem Wrote.outside (wrote : Wrote allowed place before after) {other : Path}
    (elsewhere : ¬ place <+: other) : after.get other = before.get other := by
  rcases wrote other with same | ⟨rel, obj, below, -⟩
  · exact same
  · exact absurd (below ▸ List.prefix_append place rel) elsewhere

/-- Where everything below the place was as allowed, it is so afterwards. -/
theorem Wrote.holds (wrote : Wrote allowed place before after)
    (old : ∀ rel obj, before.get (place ++ rel) = some obj → allowed rel obj) {rel : Path}
    {obj : Obj} (found : after.get (place ++ rel) = some obj) : allowed rel obj := by
  rcases wrote (place ++ rel) with same | ⟨other, new, below, written, fine, -⟩
  · exact old rel obj (same ▸ found)
  · rw [List.append_cancel_left below]
    rw [found, Option.some.injEq] at written
    exact written ▸ fine

/-- Writes below an entry are writes below its directory. -/
theorem Wrote.entry {inner : Path → Obj → Prop} {name : CString}
    (wrote : Wrote inner (place ++ [name]) before after)
    (passes : ∀ rel obj, inner rel obj → allowed (name :: rel) obj) :
    Wrote allowed place before after := by
  intro other
  rcases wrote other with same | ⟨rel, obj, below, found, fine, kept⟩
  · exact .inl same
  · exact .inr ⟨name :: rel, obj, by simpa using below, found, passes rel obj fine, kept⟩

/-- One object was written. -/
theorem wrote_one (obj : Obj) (same : ∀ other, other ≠ place → after.get other = before.get other)
    (found : after.get place = some obj) (fine : allowed [] obj)
    (kept : before.IsDir place → obj.isDir = true) : Wrote allowed place before after := by
  intro other
  by_cases here : other = place
  · exact .inr ⟨[], obj, by simpa using here, here ▸ found, fine, here ▸ kept⟩
  · exact .inl (same other here)

end Wrote

end Files

end HwrunOs.Paths
