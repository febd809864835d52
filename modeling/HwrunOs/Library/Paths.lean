import HwrunOs.Library.Bytes

/-!
# Lexical paths

A path text names the list of its components: empty components and dots are dropped, two
dots go up one level and stay at the root. A relative text starts at the working directory.
Without symbolic links this is how the file system resolves a name.
-/

namespace HwrunOs.Paths

open HwrunOs.Bytes

/-- A resolved absolute path, its components from the root. -/
abbrev Path := List CString

/-- The path after one more component. -/
def enter (path : Path) (component : CString) : Path :=
  if component = [] ∨ component = lit "." then path
  else if component = lit ".." then path.dropLast
  else path ++ [component]

/-- The path a text names, starting at a directory. -/
def walk (start : Path) (text : CString) : Path := (text.splitOn 47).foldl enter start

/-- The path a text names: an absolute one from the root, a relative one from the working
directory. -/
def resolve (cwd text : CString) : Path :=
  if text.head? = some 47 then walk [] text else walk (walk [] cwd) text

/-- Two directories overlap: they are the same or one lies in the other. -/
def Overlap (first second : Path) : Prop := first <+: second ∨ second <+: first

instance (first second : Path) : Decidable (Overlap first second) :=
  inferInstanceAs (Decidable (_ ∨ _))

/-- Directories with a common object below them overlap. -/
theorem overlap_of_common {first second object : Path} (left : first <+: object)
    (right : second <+: object) : Overlap first second :=
  List.prefix_or_prefix_of_prefix left right

/-- Overlapping is symmetric. -/
theorem Overlap.symm {first second : Path} (overlap : Overlap first second) :
    Overlap second first := overlap.elim .inr .inl

/-- A text is walked component by component at every slash. -/
theorem walk_slash (start : Path) (front back : CString) :
    walk start (front ++ 47 :: back) = walk (walk start front) back := by
  rw [walk, List.splitOn_append_cons_self, List.foldl_append]
  rfl

/-- A component without slashes that is neither empty nor dots is entered. -/
theorem walk_component (start : Path) {component : CString} (plain : 47 ∉ component)
    (filled : component ≠ []) (dot : component ≠ lit ".") (dots : component ≠ lit "..") :
    walk start component = start ++ [component] := by
  rw [walk, List.splitOn_eq_singleton plain, List.foldl_cons, List.foldl_nil, enter,
    if_neg (by simp [filled, dot]), if_neg dots]

/-- A component is no longer than its text. -/
theorem component_length {text component : CString} (among : component ∈ text.splitOn 47) :
    component.length ≤ text.length := by
  induction text generalizing component with
  | nil => simp_all
  | cons byte rest ih =>
    rw [List.splitOn_cons_eq_if_modifyHead] at among
    split at among
    · rcases List.mem_cons.mp among with rfl | later
      · exact Nat.zero_le _
      · exact Nat.le_succ_of_le (ih later)
    · cases parts : rest.splitOn 47 with
      | nil => simp [parts] at among
      | cons first others =>
        rw [parts, List.modifyHead_cons] at among
        rcases List.mem_cons.mp among with rfl | later
        · have bound := @ih first (by simp [parts])
          simpa using bound
        · exact Nat.le_succ_of_le (ih (by simp [parts, later]))

/-- The path is a part of another one with components below it that are no longer than a limit. -/
def Continues (start : Path) (limit : Nat) (path : Path) : Prop :=
  ∃ front added, path = front ++ added ∧ front <+: start ∧
    ∀ component ∈ added, component.length ≤ limit

/-- A component that is entered continues a path or shortens it. -/
theorem Continues.enter {start path : Path} {limit : Nat} {component : CString}
    (continues : Continues start limit path) (short : component.length ≤ limit) :
    Continues start limit (enter path component) := by
  obtain ⟨front, added, rfl, kept, fine⟩ := continues
  unfold Paths.enter
  split
  · exact ⟨front, added, rfl, kept, fine⟩
  · split
    · rcases List.eq_nil_or_concat added with rfl | ⟨before, last, rfl⟩
      · exact ⟨front.dropLast, [], by simp, (List.dropLast_prefix front).trans kept, fine⟩
      · refine ⟨front, before, ?_, kept, fun other member => fine other (by simp [member])⟩
        rw [List.concat_eq_append, ← List.append_assoc, List.dropLast_concat]
    · refine ⟨front, added ++ [component], by simp, kept, fun other member => ?_⟩
      rcases List.mem_append.mp member with old | new
      · exact fine other old
      · rwa [List.mem_singleton.mp new]

/-- A walked path continues its start with components of the text. -/
theorem walk_continues (start : Path) (text : CString) :
    Continues start text.length (walk start text) := by
  have steps (components : Path)
      (short : ∀ component ∈ components, component.length ≤ text.length) :
      ∀ path, Continues start text.length path →
        Continues start text.length (components.foldl enter path) := by
    induction components with
    | nil => exact fun _ continues => continues
    | cons component rest ih =>
      intro path continues
      exact ih (fun other later => short other (List.mem_cons_of_mem _ later)) _
        (continues.enter (short component List.mem_cons_self))
  exact steps _ (fun component among => component_length among) start
    ⟨start, [], by simp, List.prefix_rfl, fun _ none => absurd none List.not_mem_nil⟩

/-- One more component below a text that is not empty. -/
theorem resolve_component {cwd text component : CString} (started : text ≠ [])
    (plain : 47 ∉ component) (filled : component ≠ []) (dot : component ≠ lit ".")
    (dots : component ≠ lit "..") :
    resolve cwd (text ++ 47 :: component) = resolve cwd text ++ [component] := by
  have head : (text ++ 47 :: component).head? = text.head? := by
    obtain ⟨first, rest, rfl⟩ := List.exists_cons_of_ne_nil started
    rfl
  unfold resolve
  rw [head]
  split <;> rw [walk_slash, walk_component _ plain filled dot dots]

/-! ## Symbolic links -/

/-- The text of the symbolic link at a place, none where there is none. -/
abbrev Links := Path → Option CString

/-- How far components are entered. -/
inductive Reached where
  /-- All of them. -/
  | place (path : Path)
  /-- Up to a symbolic link in a directory, with components behind it. -/
  | link (dir : Path) (target : CString) (rest : List CString)

/-- Components are entered up to a symbolic link with a component behind it, which may be empty. -/
def walkLinks (links : Links) (path : Path) : List CString → Reached
  | [] => .place path
  | component :: rest =>
    let next := enter path component
    match if next = path ++ [component] ∧ rest ≠ [] then links next else none with
    | some target => .link path target rest
    | none => walkLinks links next rest

/-- Components are entered and symbolic links are followed, up to a number of them. -/
def follow (links : Links) : Nat → Path → List CString → Option Path
  | 0, path, components =>
    match walkLinks links path components with
    | .place place => some place
    | .link _ _ _ => none
  | limit + 1, path, components =>
    match walkLinks links path components with
    | .place place => some place
    | .link dir target rest =>
      follow links limit (if target.head? = some 47 then [] else dir) (target.splitOn 47 ++ rest)

/-- The object that a text names: a symbolic link at its end is not followed, and no more than 40
are. -/
def locate (links : Links) (cwd text : CString) : Option Path :=
  follow links 40 (if text.head? = some 47 then [] else walk [] cwd) (text.splitOn 47)

/-- Without symbolic links all components are entered. -/
theorem walkLinks_plain {links : Links} (plain : ∀ place, links place = none) (path : Path)
    (components : List CString) :
    walkLinks links path components = .place (components.foldl enter path) := by
  induction components generalizing path with
  | nil => rfl
  | cons component rest ih =>
    have none : (if enter path component = path ++ [component] ∧ rest ≠ [] then
        links (enter path component) else none) = none := by
      split
      · exact plain _
      · rfl
    rw [walkLinks, none]
    exact ih _

/-- Without symbolic links a text names the path it resolves to. -/
theorem locate_plain {links : Links} (plain : ∀ place, links place = none) (cwd text : CString) :
    locate links cwd text = some (resolve cwd text) := by
  unfold locate resolve
  rw [follow, walkLinks_plain plain]
  by_cases absolute : text.head? = some 47
  · rw [if_pos absolute, if_pos absolute]
    rfl
  · rw [if_neg absolute, if_neg absolute]
    rfl

end HwrunOs.Paths
