import HwrunOs.Library.Answering
import HwrunOs.Param.Linear
import HwrunOs.Param.RoundTrip

/-!
# Parameters on the command line

Every `hwrun params` command is a process of its own: it loads the parameter file into an empty
tree, and a `set` writes the whole tree back. A file that cannot be opened counts as an empty one
when it is read, is left as it is when it should be written, and neither is told. Between two
commands there is nothing but the file, yet what they print is what a finite map would answer, as
long as the names and values that are set survive their line.
-/

namespace HwrunOs.Param

open HwrunOs.Bytes HwrunOs.Trees HwrunOs.Answering HwrunOs.Runs

/-! ## Listing -/

/-- The line that `hw_param_dump` prints for a node, with its key, its value and its children. -/
def dumpLine (indent : Nat) (key value : CString) (child : ParamTree) : CString :=
  (List.replicate indent (lit "  ")).flatten ++
    (match child with
      | .null => key ++ lit " = " ++ if value ≠ [] then value else lit "<nil>"
      | _ => lit "[" ++ key ++ lit "]" ++ if value ≠ [] then lit " = " ++ value else []) ++
    [newline]

/-- `hw_param_dump` of a node and of the siblings behind it. -/
def dumpNodes (indent : Nat) : ParamTree → CString
  | .null => []
  | .node key value child sibling =>
    dumpLine indent key value child ++ dumpNodes (indent + 1) child ++ dumpNodes indent sibling

/-- `hw_param_dump_all`: the first node below the root, without the siblings behind it. -/
def hwParamDumpAll : ParamTree → CString
  | .null => []
  | .node key value child _ => dumpLine 0 key value child ++ dumpNodes 1 child

/-! ## Commands -/

/-- What one process finds: the parameter file can be opened for reading and for writing, and a
node of some depth gets memory. -/
structure Process where
  /-- A file that is there can be opened for reading. -/
  readable : Bool
  /-- The file can be opened for writing. -/
  writable : Bool
  /-- There is memory for a node that a set creates, by depth. -/
  alloc : Nat → Bool

/-- `params_persist_load`, into the tree of a process that has just started. -/
def paramsPersistLoad (process : Process) : Option CString → ParamTree
  | none => .null
  | some file => if process.readable then hwParamLoadFile .null file else .null

/-- `params_persist_save`: the file afterwards. -/
def paramsPersistSave (process : Process) (tree : ParamTree) (file : Option CString) :
    Option CString :=
  if process.writable then some (hwParamSaveFile tree) else file

/-- What a command returns and prints. -/
structure Printed where
  /-- The code. -/
  rc : Int
  /-- What is printed. -/
  text : CString
  deriving DecidableEq

/-- What a `get` prints. -/
def printGet (value : Option CString) : Printed := ⟨hwrunOk, value.getD (lit "(nil)") ++ [newline]⟩

/-- What a `set` prints. -/
def printSet (key value : CString) (rc : Int) : Printed where
  rc := rc
  text := lit "param " ++ key ++ lit "=" ++ value ++ lit ": " ++
    (if rc = hwrunOk then lit "ok" else lit "failed") ++ [newline]

/-- A command of `hwrun params`. -/
inductive Command where
  /-- `list`. -/
  | list
  /-- `get`. -/
  | get (key : CString)
  /-- `set`. -/
  | set (key value : CString)

/-- The command that arguments stand for; what follows is not looked at. -/
def commandOf : List CString → Option Command
  | [] => none
  | name :: args =>
    if name = lit "list" then some .list
    else match args with
      | [] => none
      | key :: more =>
        if name = lit "get" then some (.get key)
        else match more with
          | [] => none
          | value :: _ => if name = lit "set" then some (.set key value) else none

/-- `cmd_params` in a process of its own: the parameter file after it, and what it prints. -/
def cmdParams (file : Option CString) (call : Process × List CString) :
    Option CString × Printed :=
  let tree := paramsPersistLoad call.1 file
  match commandOf call.2 with
  | none => (file, ⟨hwrunEinval, []⟩)
  | some .list => (file, ⟨hwrunOk, hwParamDumpAll tree⟩)
  | some (.get key) => (file, printGet (hwParamGet tree key))
  | some (.set key value) =>
    let attempt := hwParamSet tree (some key) (some value) call.1.alloc
    (if attempt.2 = hwrunOk then paramsPersistSave call.1 attempt.1 file else file,
      printSet key value attempt.2)

/-- The commands, one process after another, from no file on. -/
def paramsCommands : Machine (Option CString) (Process × List CString) Printed := ⟨none, cmdParams⟩

/-! ## The map -/

/-- What a process finds of a map: nothing when the file cannot be read. -/
def ParamMap.found (map : ParamMap) (process : Process) : ParamMap :=
  if process.readable then map else .empty

/-- What a map on disk calls for. A `set` that is told to have worked leaves what the process found
and its own key, if the file can be written; it can fail only for want of memory. -/
def paramsLaw : Law ParamMap (Process × List CString) Printed
  | map, (process, args), printed, next =>
    match commandOf args with
    | none => printed = ⟨hwrunEinval, []⟩ ∧ next = map
    | some .list => printed.rc = hwrunOk ∧ next = map
    | some (.get key) => printed = printGet (map.found process key) ∧ next = map
    | some (.set key value) =>
      printed = printSet key value hwrunOk ∧
          next = (if process.writable then
            Function.update (map.found process) key (held value) else map) ∨
        printed = printSet key value hwrunEnomem ∧ next = map ∧ process.alloc ≠ fun _ => true

/-- What is set survives its line, and keys fit the nodes of the tree. -/
def Plainly (call : Process × List CString) : Prop :=
  match commandOf call.2 with
  | some (.get key) => ShortKey key
  | some (.set key value) =>
    ShortKey key ∧ value.length < 256 ∧ (value ≠ [] → PlainName key ∧ PlainValue value)
  | _ => True

/-! ## Trees that survive -/

/-- A tree whose nodes with a value survive their line. -/
def Surviving (tree : ParamTree) : Prop :=
  ∀ node ∈ valued [] tree, PlainName (fullName node.1) ∧ PlainValue node.2

/-- A tree that survives and shows a map. -/
structure Holds (map : ParamMap) (tree : ParamTree) : Prop where
  /-- The tree is well-formed. -/
  formed : Formed tree
  /-- It survives its file. -/
  surviving : Surviving tree
  /-- Short keys have the values of the map. -/
  same : ∀ key, ShortKey key → hwParamGet tree key = map key

/-- The empty tree shows the empty map. -/
theorem Holds.empty : Holds .empty .null where
  formed := trivial
  surviving := by simp [Surviving, valued, Trees.entries]
  same key _ := by
    rw [hwParamGet_eq, lookup_null, if_pos rfl]
    rfl

/-- A tree that survives comes back from its file with all that it shows. -/
theorem Holds.reload {map : ParamMap} {tree : ParamTree} (holds : Holds map tree) :
    Holds map (hwParamLoadFile .null (hwParamSaveFile tree)) := by
  have back : RoundTrips tree := (formed_roundTrips_iff holds.formed).mpr holds.surviving
  have formed := formed_load (hwParamSaveFile tree)
  have lookups := (hwParamGet_iff formed holds.formed).mp back
  refine ⟨formed, ?_, fun key short => (back key).trans (holds.same key short)⟩
  rintro ⟨path, value⟩ listed
  obtain ⟨filled, found⟩ := (mem_valued formed).mp listed
  rw [lookups] at found
  exact holds.surviving _ ((mem_valued holds.formed).mpr ⟨filled, found⟩)

/-- The full name of the node of a short key is the key. -/
theorem fullName_short {key : CString} (short : ShortKey key) : fullName (keyParts key) = key := by
  rw [keyParts_short short, fullName]
  exact List.intercalate_splitOn dot

/-- A successful set of a name and a value that survive shows the map with its key set. -/
theorem Holds.set {map : ParamMap} {tree : ParamTree} (holds : Holds map tree)
    {key value : CString} (short : ShortKey key) (fits : value.length < 256)
    (plain : value ≠ [] → PlainName key ∧ PlainValue value) {alloc : Nat → Bool}
    (done : (hwParamSet tree (some key) (some value) alloc).2 = hwrunOk) :
    Holds (Function.update map key (held value))
      (hwParamSet tree (some key) (some value) alloc).1 := by
  have formed : Formed (hwParamSet tree (some key) (some value) alloc).1 :=
    formed_step holds.formed ⟨some key, some value, alloc⟩
  have shortCall : ShortCall ⟨some key, some value, alloc⟩ := by
    constructor
    · rintro other ⟨⟩
      exact short
    · rintro other ⟨⟩
      exact fits
  refine ⟨formed, ?_, ?_⟩
  · rintro ⟨path, own⟩ listed
    obtain ⟨filled, found⟩ := (mem_valued formed).mp listed
    have written : lookup [] path (insert [] (snprintf 256 value) (keyParts key) alloc tree).1 =
        own := found
    rw [lookup_insert, snprintf_eq fits] at written
    split at written
    · rename_i here
      obtain ⟨rfl, -⟩ := here
      subst written
      rw [fullName_short short]
      exact plain filled
    · exact holds.surviving _ ((mem_valued holds.formed).mpr ⟨filled, written⟩)
  · intro other otherShort
    show hwParamGet (setValueStep tree ⟨some key, some value, alloc⟩) other = _
    rw [hwParamGet_setValueStep shortCall otherShort, setFor]
    by_cases same : key = other
    · subst same
      rw [if_pos ⟨done, rfl⟩, Function.update_self]
    · have different : ¬ ((hwParamSet tree (some key) (some value) alloc).2 = hwrunOk ∧
          some key = some other) := fun both => same (Option.some.inj both.2)
      rw [if_neg different, Function.update_of_ne (Ne.symm same)]
      exact holds.same other otherShort

/-! ## What is on disk -/

/-- The file holds a map: its tree, loaded into an empty one, shows the map. -/
def OnDisk (file : Option CString) (map : ParamMap) : Prop :=
  Holds map (match file with
    | none => .null
    | some text => hwParamLoadFile .null text)

/-- A process finds what the file holds, or nothing. -/
theorem OnDisk.load {file : Option CString} {map : ParamMap} (disk : OnDisk file map)
    (process : Process) : Holds (map.found process) (paramsPersistLoad process file) := by
  unfold ParamMap.found paramsPersistLoad
  cases file with
  | none =>
    split
    · exact disk
    · exact .empty
  | some text =>
    dsimp only
    split
    · exact disk
    · exact .empty

/-- One command obeys the map. -/
theorem OnDisk.step {file : Option CString} {map : ParamMap} (disk : OnDisk file map)
    (call : Process × List CString) (plainly : Plainly call) :
    ∃ next, paramsLaw map call (cmdParams file call).2 next ∧
      OnDisk (cmdParams file call).1 next := by
  obtain ⟨process, args⟩ := call
  have found := disk.load process
  unfold Plainly at plainly
  unfold paramsLaw cmdParams
  dsimp only at plainly ⊢
  cases asked : commandOf args with
  | none => exact ⟨map, ⟨rfl, rfl⟩, disk⟩
  | some command =>
    rw [asked] at plainly
    cases command with
    | list => exact ⟨map, ⟨rfl, rfl⟩, disk⟩
    | get key => exact ⟨map, ⟨congrArg printGet (found.same key plainly), rfl⟩, disk⟩
    | set key value =>
      obtain ⟨short, fits, plain⟩ := plainly
      have results := hwParamSet_result (paramsPersistLoad process file)
        ⟨some key, some value, process.alloc⟩
      unfold SetResult at results
      rw [if_neg (by simp)] at results
      dsimp only at results ⊢
      by_cases done : (hwParamSet (paramsPersistLoad process file) (some key) (some value)
          process.alloc).2 = hwrunOk
      · rw [if_pos done, done]
        refine ⟨_, .inl ⟨rfl, rfl⟩, ?_⟩
        unfold paramsPersistSave
        split
        · exact (found.set short fits plain done).reload
        · exact disk
      · rw [if_neg done, results.1.resolve_left done]
        exact ⟨map, .inr ⟨rfl, rfl, fun always => done (results.2 always)⟩, disk⟩

/-! ## Runs -/

/-- A process that is refused nothing. -/
def servedProcess : Process := ⟨true, true, fun _ => true⟩

/-- Two keys are set, one is read back, all are listed, and one is read where the file cannot be. -/
def settingCommands : List (Process × List CString) :=
  [(servedProcess, [lit "set", lit "np.mtu", lit "1500"]),
    (servedProcess, [lit "set", lit "fsp.root", lit "/data"]),
    (servedProcess, [lit "get", lit "np.mtu"]), (servedProcess, [lit "list"]),
    ({ servedProcess with readable := false }, [lit "get", lit "np.mtu"])]

end HwrunOs.Param
