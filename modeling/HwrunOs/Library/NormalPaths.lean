import HwrunOs.Library.Paths
import HwrunOs.Library.Words

/-!
# Texts of paths

The normal form of a text is the text of the path that it names: a slash in front of every
component, and a single slash for the root. The components of a path that was walked are names, so
the text of a path names just this path.
-/

namespace HwrunOs.Paths

open HwrunOs.Bytes HwrunOs.Words

/-! ## Names -/

/-- A component that is the name of an entry in a directory. -/
structure Proper (component : CString) : Prop where
  /-- It is not empty. -/
  filled : component ≠ []
  /-- It is not the directory itself. -/
  dot : component ≠ lit "."
  /-- It is not the directory above. -/
  dots : component ≠ lit ".."
  /-- It has no slash. -/
  plain : 47 ∉ component

instance (component : CString) : Decidable (Proper component) :=
  decidable_of_iff (component ≠ [] ∧ component ≠ lit "." ∧ component ≠ lit ".." ∧ 47 ∉ component)
    ⟨fun all => ⟨all.1, all.2.1, all.2.2.1, all.2.2.2⟩,
      fun all => ⟨all.filled, all.dot, all.dots, all.plain⟩⟩

/-- A name is entered. -/
theorem Proper.enter {component : CString} (proper : Proper component) (path : Path) :
    enter path component = path ++ [component] := by
  unfold Paths.enter
  rw [if_neg (by simp [proper.filled, proper.dot]), if_neg proper.dots]

/-- Components without slashes lead to paths of names. -/
theorem enter_proper {path : Path} (proper : ∀ component ∈ path, Proper component)
    {component : CString} (plain : 47 ∉ component) :
    ∀ other ∈ enter path component, Proper other := by
  unfold enter
  split
  · exact proper
  · rename_i first
    split
    · intro other listed
      exact proper other (List.dropLast_subset path listed)
    · rename_i second
      obtain ⟨filled, dot⟩ := not_or.mp first
      intro other listed
      rcases List.mem_append.mp listed with old | new
      · exact proper other old
      · rw [List.mem_singleton.mp new]
        exact ⟨filled, dot, second, plain⟩

/-- Entering components without slashes one after the other leads to paths of names. -/
theorem foldl_enter_proper {components : List CString} (plain : ∀ part ∈ components, 47 ∉ part) :
    ∀ path : Path, (∀ component ∈ path, Proper component) →
      ∀ component ∈ components.foldl enter path, Proper component := by
  induction components with
  | nil => exact fun _ proper => proper
  | cons part rest ih =>
    intro path proper
    have first := enter_proper proper (plain part List.mem_cons_self)
    exact ih (fun other later => plain other (List.mem_cons_of_mem _ later)) _ first

/-- A text leads to a path of names. -/
theorem walk_proper (text : CString) : ∀ component ∈ walk [] text, Proper component :=
  foldl_enter_proper (splitOn_part 47 text) [] fun _ none => absurd none List.not_mem_nil

/-! ## Words between slashes -/

/-- A slash. -/
def isSlash (byte : UInt8) : Bool := byte == 47

/-- The empty components between slashes lead nowhere. -/
theorem walk_words (start : Path) (text : CString) :
    walk start text = (words isSlash text).foldl enter start := by
  have steps (parts : List CString) : ∀ path : Path,
      parts.foldl enter path = (parts.filter fun part => !part.isEmpty).foldl enter path := by
    induction parts with
    | nil => exact fun _ => rfl
    | cons part rest ih =>
      intro path
      cases part with
      | nil => exact ih path
      | cons first others => exact ih _
  exact steps (text.splitOn 47) start

/-! ## Texts -/

/-- Every component of a path behind a slash. -/
def rooted (path : Path) : CString := path.flatMap fun component => 47 :: component

/-- The text of a path. -/
def textOf (path : Path) : CString := if path = [] then [47] else rooted path

/-- The text of a path below the root. -/
theorem textOf_snoc (path : Path) (component : CString) :
    textOf (path ++ [component]) = rooted path ++ 47 :: component := by
  unfold textOf rooted
  rw [if_neg (by simp), List.flatMap_append]
  simp

/-- One more component goes behind a slash. -/
theorem rooted_snoc (path : Path) (component : CString) :
    rooted (path ++ [component]) = rooted path ++ 47 :: component := by
  unfold rooted
  rw [List.flatMap_append]
  simp

/-- Texts of names name their paths. -/
theorem walk_rooted {path : Path} (proper : ∀ component ∈ path, Proper component) :
    walk [] (rooted path) = path := by
  induction path using List.reverseRecOn with
  | nil => rfl
  | append_singleton path component ih =>
    have last := proper component (by simp)
    rw [rooted_snoc, walk_slash, ih fun other listed => proper other (by simp [listed]),
      walk_component path last.plain last.filled last.dot last.dots]

/-- The text of a path names the path. -/
theorem walk_textOf {path : Path} (proper : ∀ component ∈ path, Proper component) :
    walk [] (textOf path) = path := by
  unfold textOf
  split
  · rename_i root
    rw [root]
    rfl
  · exact walk_rooted proper

/-- The text of a path begins with a slash. -/
theorem textOf_head (path : Path) : ∃ rest, textOf path = 47 :: rest := by
  cases path with
  | nil => exact ⟨[], rfl⟩
  | cons first others => exact ⟨first ++ rooted others, rfl⟩

/-! ## Changed components -/

/-- A change of components that keeps what they do. -/
structure Keeps (change : CString → CString) : Prop where
  /-- Components that lead nowhere still do. -/
  stay : ∀ component, change component = [] ∨ change component = lit "." ↔
    component = [] ∨ component = lit "."
  /-- Components that lead up still do. -/
  up : ∀ component, change component = lit ".." ↔ component = lit ".."

/-- A path is entered no deeper than it has components. -/
theorem enter_length (path : Path) (component : CString) :
    (enter path component).length ≤ path.length + 1 := by
  unfold enter
  split
  · omega
  · split
    · rw [List.length_dropLast]
      omega
    · rw [List.length_append, List.length_singleton]

end HwrunOs.Paths
