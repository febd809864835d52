import HwrunOs.Param.Tree

/-!
# The parameter file

`hw_param_save_file` writes a flat line for every node with a value, and `hw_param_load_file`
reads lines back: it skips blanks, comments and empty lines, splits at the first colon or else at
the first equals sign, and trims both sides. Opening the file is taken to succeed.
-/

namespace HwrunOs.Param

open HwrunOs.Bytes HwrunOs.Trees

/-! ## Saving -/

/-- The name of a node below a name: `kk`, in a buffer of 512 bytes. An empty name above is left
out with its dot. -/
def belowName (above key : CString) : CString :=
  if above ≠ [] then snprintf 512 (above ++ dot :: key) else snprintf 512 key

/-- `hw_param_tree_save`. -/
def hwParamTreeSave (above : CString) : ParamTree → CString
  | .null => []
  | .node key value child sibling =>
    let name := belowName above key
    (if value ≠ [] then name ++ lit ": " ++ value ++ [newline] else []) ++
      hwParamTreeSave name child ++ hwParamTreeSave above sibling

/-- `hw_param_save_file`: what the file holds. -/
def hwParamSaveFile (tree : ParamTree) : CString := hwParamTreeSave [] tree

/-! ## Loading -/

/-- A byte skipped in front of a value. -/
def isValueFront (byte : UInt8) : Bool := isBlank byte || byte == 34

/-- A byte dropped behind a value. -/
def isValueBack (byte : UInt8) : Bool := isSpace byte || byte == 34

/-- A line that starts with this byte is skipped. -/
def isSkipped (byte : UInt8) : Bool := byte == 35 || byte == newline || byte == 13

/-- The body of the loop of `hw_param_load_file`: key and value of a line. -/
def parseLine (line : CString) : Option (CString × CString) :=
  let text := line.dropWhile isBlank
  if text.head?.all isSkipped then none
  else match (cutAt 58 text).or (cutAt 61 text) with
    | none => none
    | some (front, back) =>
      let key := front.rdropWhile isSpace
      if key = [] then none else some (key, trim isValueFront isValueBack back)

/-- What `hw_param_load_file` does with one line. -/
def loadLine (tree : ParamTree) (line : CString) : ParamTree :=
  match parseLine line with
  | none => tree
  | some (key, value) => (hwParamSet tree (some key) (some value) fun _ => true).1

/-- `hw_param_load_file`, with memory for every node. -/
def hwParamLoadFile (tree : ParamTree) (file : CString) : ParamTree :=
  (fgetsLines 1024 file).foldl loadLine tree

/-! ## What is written -/

/-- The name that the file gives a node. -/
def savedName (path : List CString) : CString := path.foldl belowName []

/-- The line of a node without its line feed. -/
def savedLine (entry : List CString × CString) : CString :=
  savedName entry.1 ++ lit ": " ++ entry.2

/-- The nodes with a value, in the order in which they are written. -/
def valued (front : List CString) (tree : ParamTree) : List (List CString × CString) :=
  (entries front tree).filter fun entry => entry.2 ≠ []

/-- The file is the lines of the nodes with a value. -/
theorem hwParamTreeSave_eq (front : List CString) (tree : ParamTree) :
    hwParamTreeSave (savedName front) tree =
      ((valued front tree).map savedLine).flatMap (· ++ [newline]) := by
  induction tree generalizing front with
  | null => rfl
  | node key value child sibling ihChild ihSibling =>
    have name : belowName (savedName front) key = savedName (front ++ [key]) := by
      simp [savedName]
    have nodes : valued front (.node key value child sibling) =
        (if value ≠ [] then [(front ++ [key], value)] else []) ++
          (valued (front ++ [key]) child ++ valued front sibling) := by
      by_cases empty : value = []
      · simp [valued, entries, empty]
      · simp [valued, entries, empty]
    rw [hwParamTreeSave, name, ihChild, ihSibling, nodes]
    by_cases empty : value = []
    · simp [empty]
    · simp [empty, savedLine]

/-- The nodes with a value are the paths whose lookup is not empty. -/
theorem mem_valued {tree : ParamTree} (formed : Formed tree) {path : List CString}
    {value : CString} : (path, value) ∈ valued [] tree ↔
      value ≠ [] ∧ lookup [] path tree = value := by
  rw [valued, List.mem_filter, mem_entries formed]
  simp only [List.nil_append, exists_eq_left', ne_eq, decide_not, Bool.not_eq_eq_eq_not,
    Bool.not_true, decide_eq_false_iff_not, lookup]
  cases find path tree with
  | none => simp [eq_comm]
  | some own => simp [and_comm]

/-! ## What is read -/

/-- The path and the stored value of a line. -/
def lineEntry (line : CString) : Option (List CString × CString) :=
  (parseLine line).map fun pair => (keyParts pair.1, snprintf 256 pair.2)

/-- Loading is assigning the entries of the lines in order. -/
theorem hwParamLoadFile_eq (tree : ParamTree) (file : CString) :
    hwParamLoadFile tree file = assign [] ((fgetsLines 1024 file).filterMap lineEntry) tree := by
  unfold hwParamLoadFile assign
  induction fgetsLines 1024 file generalizing tree with
  | nil => rfl
  | cons line rest ih =>
    rw [List.foldl_cons, ih, List.filterMap_cons, loadLine, lineEntry]
    cases parseLine line <;> rfl

end HwrunOs.Param
