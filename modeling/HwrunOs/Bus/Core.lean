import HwrunOs.Library.Runs
import HwrunOs.Bus.Loader

/-!
# The bus

`bus.c`: initialisation with the built-in protocols, the scan that lists discovered plugins,
the fixed boot order and the operations on one plugin. The directories to scan are an input:
the descriptors parsed from their `plugin.yml` files. The operations form one step function,
over whose runs the results of the bus are stated.
-/

namespace HwrunOs.Bus

open HwrunOs.Bytes HwrunOs.Runs

/-! ## Initialisation and scan -/

/-- The protocols `hw_bus_init` registers for the bus itself. -/
def builtinProtocols : List CString :=
  [lit "METAPROTO", lit "BUS", lit "PARAM", lit "LOG", lit "GIT"]

/-- `hw_bus_init`: no plugins, and the built-in protocols without implementation. -/
def hwBusInit : HwBus where
  plugins := .empty
  metaproto := builtinProtocols.foldl (fun registry protocol =>
    (hwMetaprotoRegister registry protocol (some (lit "1.0")) (lit "bus") .null true).1)
    ⟨true, []⟩
  initialized := true
  calls := []

/-- `hw_plugin_discovery_t` with the directory it was read from. -/
structure Discovery where
  /-- The id, a buffer of 64 bytes. -/
  id : CString
  /-- The id fits its buffer. -/
  idFits : id.length < 64
  /-- Provided protocols. -/
  provides : List CString
  /-- Required protocols. -/
  requires : List CString
  /-- Conflicting protocols. -/
  conflicts : List CString
  /-- Files as written. -/
  files : List CString
  /-- The plugin's directory. -/
  plugDir : CString

/-- The id `hap` fits its buffer. -/
theorem hap_fits : (lit "hap").length < 64 := by decide

/-- The id `fsp` fits its buffer. -/
theorem fsp_fits : (lit "fsp").length < 64 := by decide

/-- `hw_fmt_path`: directory and name with one slash between, unless the buffer is too small. -/
def hwFmtPath (cap : Nat) (dir name : CString) : Option CString :=
  let full := if dir.getLast? = some 47 then dir ++ name else dir ++ 47 :: name
  if full.length < cap then some full else none

/-- A file path made absolute; a path that does not fit is dropped. -/
def absoluteFile (plugDir file : CString) : Option CString :=
  if file.head? = some 47 then some file else hwFmtPath 512 plugDir file

/-- The node `scan_dir_rec` builds from a discovery: installed, not loaded, without callbacks. -/
def scannedPlugin (discovery : Discovery) : Plugin where
  id := snprintf 64 discovery.id
  state := .installed
  provides := copyStrArr discovery.provides
  requires := copyStrArr discovery.requires
  conflicts := copyStrArr discovery.conflicts
  files := (copyStrArr discovery.files).map (·.map (absoluteFile discovery.plugDir))
  ops := {}
  handle := none
  loadTime := 0
  runtimeBind := none

/-- `scan_dir_rec`: list a discovered plugin unless its id is empty or already listed. -/
def scanDirRec (table : PluginTable) (discovery : Discovery) : PluginTable :=
  if discovery.id = [] then table
  else if fresh : ∀ node ∈ table.nodes, node.id ≠ discovery.id then
    table.insert (scannedPlugin discovery) (by
      rw [scannedPlugin, snprintf_eq discovery.idFits]
      exact fresh)
  else table

/-- `hw_bus_scan`, over the discoveries of the scan paths in order. -/
def hwBusScan (found : List Discovery) (bus : HwBus) : HwBus :=
  if bus.initialized then { bus with plugins := found.foldl scanDirRec bus.plugins } else bus

/-! ## Operations -/

/-- `hw_bus_load`: start a listed plugin that is not started. -/
def hwBusLoad (env : Env) (bus : HwBus) (id : CString) : HwBus × Int :=
  match bus.plugins.find id with
  | none => (bus, hwrunEnoent)
  | some plugin =>
    if plugin.state = .started then (bus, hwrunOk) else hwPluginStart env bus plugin

/-- `boot_order`: the standard start order of the dependency chain. -/
def bootOrder : List CString :=
  [lit "metaproto", lit "bus", lit "param", lit "log", lit "git", lit "hap", lit "pmp",
    lit "fsp", lit "np", lit "sp", lit "crypto", lit "loader", lit "compress", lit "cluster",
    lit "instance", lit "sandbox", lit "input", lit "display", lit "audio", lit "power",
    lit "storage", lit "permission", lit "consensus", lit "fs_transfer", lit "node_discovery",
    lit "driver", lit "hotplug", lit "terminal", lit "audit", lit "packages", lit "monitor",
    lit "ui", lit "console", lit "desktop", lit "shell"]

/-- The body of the boot loop for one id: start the plugin if it is listed and not started. -/
def bootTurn (env : Env) (bus : HwBus) (id : CString) : HwBus :=
  match bus.plugins.find id with
  | none => bus
  | some plugin => if plugin.state = .started then bus else (hwPluginStart env bus plugin).1

/-- `hw_bus_boot_chain`: scan, then one pass over the boot order; a failing start is logged
and the pass goes on. -/
def hwBusBootChain (env : Env) (found : List Discovery) (bus : HwBus) : HwBus × Int :=
  if bus.initialized then
    (bootOrder.foldl (bootTurn env) (hwBusScan found bus), hwrunOk)
  else (bus, hwrunEinval)

/-- `hw_bus_stop`. -/
def hwBusStop (bus : HwBus) (id : CString) : HwBus × Int :=
  match bus.plugins.find id with
  | none => (bus, hwrunEnoent)
  | some plugin => (hwPluginStop bus plugin, hwrunOk)

/-- `hw_bus_unload`. -/
def hwBusUnload (bus : HwBus) (id : CString) : HwBus × Int :=
  match bus.plugins.find id with
  | none => (bus, hwrunEnoent)
  | some plugin => (hwPluginUnload bus plugin, hwrunOk)

/-- The unload loop of `hw_bus_shutdown` on one detached node: only a started or loaded one is
unloaded. -/
def shutdownNode (bus : HwBus) (plugin : Plugin) : HwBus :=
  if plugin.state = .started ∨ plugin.state = .loaded then hwPluginUnload bus plugin else bus

/-- `hw_bus_shutdown`: detach the list, unload its nodes, drop the registry. -/
def hwBusShutdown (bus : HwBus) : HwBus :=
  if bus.initialized then
    { bus.plugins.nodes.foldl shutdownNode { bus with plugins := .empty } with
      metaproto := ⟨false, []⟩
      initialized := false }
  else bus

/-! ## Runs -/

/-- An operation on one plugin. -/
inductive PluginAction where
  /-- `hw_bus_load`. -/
  | load (id : CString) (env : Env)
  /-- `hw_bus_stop`. -/
  | stop (id : CString)
  /-- `hw_bus_unload`. -/
  | unload (id : CString)

/-- An operation of the bus. -/
inductive BusAction where
  /-- An operation on one plugin. -/
  | plugin (action : PluginAction)
  /-- `hw_bus_scan`. -/
  | scan (found : List Discovery)
  /-- `hw_bus_boot_chain`, with what its scan finds. -/
  | bootChain (found : List Discovery) (env : Env)

/-- The state after an operation on one plugin. -/
def pluginStep (bus : HwBus) : PluginAction → HwBus
  | .load id env => (hwBusLoad env bus id).1
  | .stop id => (hwBusStop bus id).1
  | .unload id => (hwBusUnload bus id).1

/-- The state after an operation of the bus. -/
def busStep (bus : HwBus) : BusAction → HwBus
  | .plugin action => pluginStep bus action
  | .scan found => hwBusScan found bus
  | .bootChain found env => (hwBusBootChain env found bus).1

/-- A turn of the boot loop does what `hw_bus_load` does. -/
theorem bootTurn_eq (env : Env) (bus : HwBus) (id : CString) :
    bootTurn env bus id = (hwBusLoad env bus id).1 := by
  unfold bootTurn hwBusLoad
  split
  · rfl
  · split <;> rfl

/-! ## The scan -/

/-- A node after the scan is an old one or the installed node of a discovery. -/
theorem mem_scan {table : PluginTable} {found : List Discovery} {node : Plugin}
    (listed : node ∈ (found.foldl scanDirRec table).nodes) :
    node ∈ table.nodes ∨ ∃ discovery ∈ found, node = scannedPlugin discovery := by
  induction found generalizing table with
  | nil => exact .inl listed
  | cons discovery found ih =>
    rcases ih listed with old | ⟨other, member, made⟩
    · unfold scanDirRec at old
      split at old
      · exact .inl old
      · split at old
        · rcases List.mem_cons.mp old with rfl | kept
          · exact .inr ⟨discovery, List.mem_cons_self, rfl⟩
          · exact .inl kept
        · exact .inl old
    · exact .inr ⟨other, List.mem_cons_of_mem _ member, made⟩

@[simp] theorem hwBusScan_metaproto (found : List Discovery) (bus : HwBus) :
    (hwBusScan found bus).metaproto = bus.metaproto := by
  unfold hwBusScan
  split <;> rfl

@[simp] theorem hwBusScan_initialized (found : List Discovery) (bus : HwBus) :
    (hwBusScan found bus).initialized = bus.initialized := by
  unfold hwBusScan
  split <;> rfl

end HwrunOs.Bus
