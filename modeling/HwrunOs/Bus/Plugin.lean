import Mathlib.Data.List.Nodup
import HwrunOs.Library.Bytes

/-!
# Plugin descriptors and the plugin table

The part of `hw_plugin_t` the bus reads and writes, the result codes it returns, and the
linked list of plugins as a table in which every id occurs once. `scan_dir_rec` refuses an
id that is already listed, so a pointer to a node and the node's id name the same entry.
-/

namespace HwrunOs.Bus

open HwrunOs.Bytes

/-! ## Result codes -/

/-- `HWRUN_OK`. -/
def hwrunOk : Int := 0
/-- `HWRUN_ENOENT`. -/
def hwrunEnoent : Int := -2
/-- `HWRUN_ENOMEM`. -/
def hwrunEnomem : Int := -12
/-- `HWRUN_EEXIST`. -/
def hwrunEexist : Int := -17
/-- `HWRUN_EINVAL`. -/
def hwrunEinval : Int := -22
/-- `HWRUN_EILSEQ`. -/
def hwrunEilseq : Int := -84
/-- `HWRUN_ECONFLICT`, in the private domain above `HW_EBASE`. -/
def hwrunEconflict : Int := -(0x1000 + 1)

/-! ## Descriptors -/

/-- `hwplugin_state_t`. -/
inductive PluginState where
  | uninstalled
  | installed
  | loaded
  | started
  | stopped
  | error
  deriving DecidableEq, Repr

/-- An address that is not null. -/
abbrev Addr := Nat

/-- `hw_plugin_ops_t`: the callbacks a plugin has. -/
structure PluginOps where
  /-- `init`, called by `hw_plugin_start`. -/
  init : Option Addr := none
  /-- `start`, called by `hw_plugin_start` after the protocols are registered. -/
  start : Option Addr := none
  /-- `stop`, called by `hw_plugin_stop`. -/
  stop : Option Addr := none
  /-- `destroy`, called by `hw_plugin_unload`. -/
  destroy : Option Addr := none
  /-- `configure`, called for a changed parameter. -/
  configure : Option Addr := none
  /-- `get_interface`: the interface pointer of a protocol. -/
  getInterface : Option (CString → Option Addr) := none

/-- `hw_plugin_t`. A string array is `none` for a null pointer; its count is its length. -/
structure Plugin where
  /-- The id, at most 63 bytes. -/
  id : CString
  /-- Lifecycle state. -/
  state : PluginState
  /-- Provided protocols. -/
  provides : Option (List CString)
  /-- Required protocols. -/
  requires : Option (List CString)
  /-- Protocols declared as conflicting. -/
  conflicts : Option (List CString)
  /-- Files; an entry is `none` after its path turned out too long. -/
  files : Option (List (Option CString))
  /-- Callbacks. -/
  ops : PluginOps
  /-- `dlopen` handle. -/
  handle : Option Addr
  /-- Time of loading. -/
  loadTime : Nat
  /-- `runtime_bind`, filled in by the entry point of a shared object. -/
  runtimeBind : Option Addr

/-- `copy_str_arr`: an empty array is copied to a null pointer. -/
def copyStrArr {α : Type} (source : List α) : Option (List α) :=
  if source.isEmpty then none else some source

/-- The entries of an array that may be a null pointer with count zero. -/
def entries {α : Type} (array : Option (List α)) : List α := array.getD []

@[simp] theorem entries_copyStrArr {α : Type} (source : List α) :
    entries (copyStrArr source) = source := by
  cases source <;> rfl

/-! ## The plugin table -/

/-- The list of plugins, newest first, with its invariant that no id occurs twice. -/
structure PluginTable where
  /-- The nodes in list order. -/
  nodes : List Plugin
  /-- Every id is listed once. -/
  unique : (nodes.map Plugin.id).Nodup

namespace PluginTable

/-- The table without plugins. -/
def empty : PluginTable := ⟨[], List.nodup_nil⟩

/-- `hw_bus_find`: the first node with an id. -/
def find (table : PluginTable) (id : CString) : Option Plugin :=
  table.nodes.find? fun node => node.id == id

/-- Write the node with an id in place; the id itself is never written. -/
def modify (table : PluginTable) (id : CString) (change : Plugin → Plugin) : PluginTable where
  nodes := table.nodes.map fun node =>
    if node.id = id then { change node with id := node.id } else node
  unique := by
    have same : (table.nodes.map fun node =>
        if node.id = id then { change node with id := node.id } else node).map Plugin.id =
        table.nodes.map Plugin.id := by
      rw [List.map_map]
      apply List.map_congr_left
      intro node _
      by_cases named : node.id = id
      · simp [named]
      · simp [named]
    rw [same]
    exact table.unique

/-- Insert a new node at the head. -/
def insert (table : PluginTable) (node : Plugin)
    (fresh : ∀ other ∈ table.nodes, other.id ≠ node.id) : PluginTable where
  nodes := node :: table.nodes
  unique := by
    rw [List.map_cons, List.nodup_cons]
    refine ⟨?_, table.unique⟩
    intro listed
    obtain ⟨other, found, same⟩ := List.mem_map.mp listed
    exact fresh other found same

/-- A node that is found is listed under its id. -/
theorem find_some {table : PluginTable} {id : CString} {node : Plugin}
    (found : table.find id = some node) : node ∈ table.nodes ∧ node.id = id :=
  ⟨List.mem_of_find?_eq_some found, by simpa using List.find?_some found⟩

/-- Two listed nodes with one id are one node. -/
theorem eq_of_id {table : PluginTable} {first second : Plugin} (left : first ∈ table.nodes)
    (right : second ∈ table.nodes) (same : first.id = second.id) : first = second :=
  List.inj_on_of_nodup_map table.unique left right same

/-- A listed node is found by its id. -/
theorem find_of_mem {table : PluginTable} {node : Plugin} (listed : node ∈ table.nodes) :
    table.find node.id = some node := by
  cases search : table.find node.id with
  | none =>
    have missed := List.find?_eq_none.mp search node listed
    simp at missed
  | some other =>
    obtain ⟨member, named⟩ := find_some search
    rw [eq_of_id member listed named]

/-- Nothing is found under an id exactly when no node has it. -/
theorem find_none {table : PluginTable} {id : CString} :
    table.find id = none ↔ ∀ node ∈ table.nodes, node.id ≠ id := by
  simp [find, List.find?_eq_none]

/-- The nodes after a write: the written one and the others as they were. -/
theorem mem_modify {table : PluginTable} {id : CString} {change : Plugin → Plugin}
    {node : Plugin} : node ∈ (table.modify id change).nodes ↔
      ∃ old ∈ table.nodes,
        node = if old.id = id then { change old with id := old.id } else old := by
  simp only [modify, List.mem_map]
  constructor <;> rintro ⟨old, listed, rfl⟩ <;> exact ⟨old, listed, rfl⟩

/-- Writing one node leaves the others to be found as they were. -/
theorem find_modify_ne {table : PluginTable} {id other : CString} {change : Plugin → Plugin}
    (different : other ≠ id) : (table.modify id change).find other = table.find other := by
  cases search : table.find other with
  | none =>
    rw [find_none] at search ⊢
    intro node listed
    obtain ⟨old, member, rfl⟩ := mem_modify.mp listed
    by_cases named : old.id = id
    · simpa [named] using fun same => different same.symm
    · simpa [named] using search old member
  | some node =>
    obtain ⟨member, named⟩ := find_some search
    have kept : node ∈ (table.modify id change).nodes :=
      mem_modify.mpr ⟨node, member, by rw [if_neg (by rw [named]; exact different)]⟩
    rw [← named]
    exact find_of_mem kept

/-- The written node is found with what was written. -/
theorem find_modify_self {table : PluginTable} {id : CString} {change : Plugin → Plugin}
    {node : Plugin} (found : table.find id = some node) :
    (table.modify id change).find id = some { change node with id := id } := by
  obtain ⟨member, named⟩ := find_some found
  have written : ({ change node with id := id } : Plugin) ∈ (table.modify id change).nodes :=
    mem_modify.mpr ⟨node, member, by rw [if_pos named, named]⟩
  exact find_of_mem written

/-- Writing under an id that is not listed changes nothing that can be found. -/
theorem find_modify_none {table : PluginTable} {id : CString} {change : Plugin → Plugin}
    (absent : table.find id = none) : (table.modify id change).find id = none := by
  rw [find_none] at absent ⊢
  intro node listed
  obtain ⟨old, member, rfl⟩ := mem_modify.mp listed
  have other := absent old member
  simp [other]

end PluginTable

end HwrunOs.Bus
