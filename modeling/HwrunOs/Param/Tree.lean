import HwrunOs.Library.Bytes
import HwrunOs.Library.KeyTree
import HwrunOs.Library.Runs

/-!
# The parameter tree

`hwrun.c` keeps parameters in a tree: a key is split at its dots, and every part, cut to the 127
bytes of a node's key, names one node on the way. A node without a value has the empty one, which
`hw_param_get` takes for none. A failing allocation is an input.
-/

namespace HwrunOs.Param

open HwrunOs.Bytes HwrunOs.Trees HwrunOs.Runs

/-- `HWRUN_OK`. -/
def hwrunOk : Int := 0
/-- `HWRUN_ENOENT`. -/
def hwrunEnoent : Int := -2
/-- `HWRUN_ENOMEM`. -/
def hwrunEnomem : Int := -12
/-- `HWRUN_EINVAL`. -/
def hwrunEinval : Int := -22

/-- The children of the root of a parameter tree: `hw_param_t` with its key and its value. -/
abbrev ParamTree := KeyTree CString CString

/-! ## Keys -/

/-- The byte between two parts of a key. -/
abbrev dot : UInt8 := 46

/-- `param_split_key`: the first part, cut to its buffer, and what follows its dot. -/
def paramSplitKey (key : CString) : CString × Option CString :=
  match cutAt dot key with
  | none => (snprintf 128 key, none)
  | some (front, back) => (snprintf 128 front, some back)

/-- The parts that repeated calls of `param_split_key` yield. -/
def keyParts (key : CString) : List CString := (key.splitOn dot).map (snprintf 128)

/-- The parts of a key are its first part and those of the rest. -/
theorem keyParts_split (key : CString) :
    keyParts key = (paramSplitKey key).1 :: ((paramSplitKey key).2.map keyParts).getD [] := by
  unfold paramSplitKey
  cases cut : cutAt dot key with
  | none =>
    have absent : dot ∉ key := by
      rw [cutAt_idxOf?, Option.map_eq_none_iff] at cut
      exact List.idxOf?_eq_none_iff.mp cut
    rw [keyParts, List.splitOn_eq_singleton absent]
    rfl
  | some parts =>
    obtain ⟨front, back⟩ := parts
    obtain ⟨whole, absent⟩ := cutAt_parts cut
    show keyParts key = snprintf 128 front :: keyParts back
    rw [keyParts, keyParts, whole, List.splitOn_append_cons_self_of_not_mem absent, List.map_cons]

/-- A key of a node: it fits its field, and no dot was left in it. -/
def NodeKey (key : CString) : Prop := key.length < 128 ∧ dot ∉ key

/-- A value of a node fits its field. -/
def NodeValue (value : CString) : Prop := value.length < 256

/-- There is a part in every key. -/
theorem keyParts_ne_nil (key : CString) : keyParts key ≠ [] := by
  rw [keyParts, Ne, List.map_eq_nil_iff]
  exact List.splitOn_ne_nil dot key

/-- The parts of a key are keys of nodes. -/
theorem keyParts_nodeKey (key : CString) : ∀ part ∈ keyParts key, NodeKey part := by
  intro part listed
  obtain ⟨whole, found, rfl⟩ := List.mem_map.mp listed
  refine ⟨snprintf_length whole (by decide), ?_⟩
  intro dotted
  exact splitOn_part dot key whole found ((snprintf_begins 128 whole).mem dotted)

/-- The full name of a node: its keys joined by dots. -/
def fullName (path : List CString) : CString := [dot].intercalate path

/-- The parts of the full name of a node are its keys. -/
theorem keyParts_fullName {path : List CString} (filled : path ≠ [])
    (keys : ∀ key ∈ path, NodeKey key) : keyParts (fullName path) = path := by
  have dotless : ∀ key ∈ path, dot ∉ key := fun key listed => (keys key listed).2
  rw [keyParts, fullName, List.splitOn_intercalate dot dotless filled]
  have uncut : ∀ key ∈ path, snprintf 128 key = key :=
    fun key listed => snprintf_eq (keys key listed).1
  rw [List.map_congr_left uncut, List.map_id']

/-! ## Operations -/

/-- `hw_param_find`: the value of the node of a key. -/
def hwParamFind (tree : ParamTree) (key : CString) : Option CString := find (keyParts key) tree

/-- `hw_param_get`: the value, if there is one that is not empty. -/
def hwParamGet (tree : ParamTree) (key : CString) : Option CString :=
  match hwParamFind tree key with
  | none => none
  | some value => if value = [] then none else some value

/-- `hw_param_set`: the nodes on the way are created, as far as there is memory. -/
def hwParamSet (tree : ParamTree) (key value : Option CString) (alloc : Nat → Bool) :
    ParamTree × Int :=
  match key, value with
  | some key, some value =>
    let (tree, done) := insert [] (snprintf 256 value) (keyParts key) alloc tree
    (tree, if done then hwrunOk else hwrunEnomem)
  | _, _ => (tree, hwrunEinval)

/-- One call of `hw_param_set_value`, with the outcome of its allocations. -/
structure SetCall where
  /-- The key, or a null pointer. -/
  key : Option CString
  /-- The value, or a null pointer. -/
  value : Option CString
  /-- Whether the creation of a node has memory, by depth. -/
  alloc : Nat → Bool

/-- The tree after a call of `hw_param_set_value`. -/
def setValueStep (tree : ParamTree) (call : SetCall) : ParamTree :=
  (hwParamSet tree call.key call.value call.alloc).1

/-! ## What is kept -/

/-- A tree as calls of `hw_param_set_value` leave it. -/
abbrev Formed (tree : ParamTree) : Prop := WellFormed NodeKey NodeValue tree

/-- Every call keeps the tree well-formed. -/
theorem formed_step {tree : ParamTree} (formed : Formed tree) (call : SetCall) :
    Formed (setValueStep tree call) := by
  unfold setValueStep hwParamSet
  split
  · rename_i key value _ _
    have blank : NodeValue [] := by
      unfold NodeValue
      decide
    have short : NodeValue (snprintf 256 value) := snprintf_length value (by decide)
    exact formed.insert blank short (keyParts_nodeKey key) call.alloc
  · exact formed

/-- `hw_param_get` returns the value looked up at the parts of the key, unless it is empty. -/
theorem hwParamGet_eq (tree : ParamTree) (key : CString) :
    hwParamGet tree key =
      if lookup [] (keyParts key) tree = [] then none
      else some (lookup [] (keyParts key) tree) := by
  unfold hwParamGet hwParamFind lookup
  cases find (keyParts key) tree <;> simp

/-- Two trees give the same values exactly when all lookups below their roots agree. -/
theorem hwParamGet_iff {first second : ParamTree} (firstFormed : Formed first)
    (secondFormed : Formed second) :
    (∀ key, hwParamGet first key = hwParamGet second key) ↔
      ∀ path, lookup [] path first = lookup [] path second := by
  have same (key : CString) : hwParamGet first key = hwParamGet second key ↔
      lookup [] (keyParts key) first = lookup [] (keyParts key) second := by
    rw [hwParamGet_eq, hwParamGet_eq]
    split <;> split <;> simp_all
  constructor
  · intro agree path
    by_cases named : path ≠ [] ∧ ∀ key ∈ path, NodeKey key
    · have here := (same (fullName path)).mp (agree (fullName path))
      rw [keyParts_fullName named.1 named.2] at here
      exact here
    · have missing {tree : ParamTree} (formed : Formed tree) : lookup [] path tree = [] := by
        unfold lookup
        cases found : find path tree with
        | none => rfl
        | some value =>
          refine absurd ⟨?_, (formed.find found).1⟩ named
          rintro rfl
          cases found
      rw [missing firstFormed, missing secondFormed]
  · exact fun agree key => (same key).mpr (agree (keyParts key))

end HwrunOs.Param
