import HwrunOs.Param.Tree

/-!
# Watchers and notification

`param.c`: `hw_param_set_value` writes the tree under the lock, takes a snapshot of the matching
watchers under the lock again, and calls them outside of it. The list of watchers has the newest
in front, and a snapshot has room for 64 of them. Matching a pattern is `fnmatch` with no flags,
which stays a parameter.
-/

namespace HwrunOs.Param

open HwrunOs.Bytes HwrunOs.Trees HwrunOs.Runs

variable {γ : Type}

/-- `hw_param_watcher_t`. The callback is `on_change` with its `userdata`. -/
structure Watcher (γ : Type) where
  /-- The id of the plugin that watches. -/
  pluginId : Field 64
  /-- The pattern, empty for every key. -/
  pattern : Field 128
  /-- The callback. -/
  onChange : γ

/-- `hw_param_context_t`: the tree and the watchers. -/
structure ParamContext (γ : Type) where
  /-- The parameter tree. -/
  root : ParamTree
  /-- The watchers, newest first. -/
  watchers : List (Watcher γ)

/-- `hw_param_init`. -/
def hwParamInit : ParamContext γ := ⟨.null, []⟩

/-- The watcher that `hw_param_watch` allocates. -/
def newWatcher (pluginId : CString) (pattern : Option CString) (callback : γ) : Watcher γ where
  pluginId := Field.copy pluginId
  pattern := Field.copy (pattern.getD [])
  onChange := callback

/-- `hw_param_watch`. -/
def hwParamWatch (context : ParamContext γ) (pluginId pattern : Option CString)
    (callback : Option γ) (alloc : Bool) : ParamContext γ × Int :=
  match pluginId, callback with
  | some pluginId, some callback =>
    if alloc then
      ({ context with
          watchers := newWatcher pluginId pattern callback :: context.watchers }, hwrunOk)
    else (context, hwrunEnomem)
  | _, _ => (context, hwrunEinval)

/-! ## Notification -/

/-- Whether a watcher is told about a key. -/
def Watcher.matches (fnmatch : CString → CString → Bool) (key : CString) (watcher : Watcher γ) :
    Bool := watcher.pattern.val.isEmpty || fnmatch watcher.pattern.val key

/-- The room of a snapshot. -/
def snapsMax : Nat := 64

/-- The snapshot of `hw_param_notify`: the callbacks of the first matching watchers. -/
def snapshot (fnmatch : CString → CString → Bool) (key : CString)
    (watchers : List (Watcher γ)) : List γ :=
  ((watchers.filter (Watcher.matches fnmatch key)).take snapsMax).map Watcher.onChange

/-- A call of a watcher. -/
structure Delivery (γ : Type) where
  /-- The callback called. -/
  callback : γ
  /-- The key. -/
  key : CString
  /-- The value before, or a null pointer. -/
  oldValue : Option CString
  /-- The new value. -/
  newValue : CString
  deriving DecidableEq

/-- `hw_param_notify`: the calls it makes, in order. -/
def hwParamNotify (fnmatch : CString → CString → Bool) (context : ParamContext γ)
    (key : CString) (oldValue : Option CString) (newValue : CString) : List (Delivery γ) :=
  (snapshot fnmatch key context.watchers).map fun callback => ⟨callback, key, oldValue, newValue⟩

/-- `hw_param_set_value`: the context after it, its result and the calls it makes. A call that
fails tells nobody. -/
def hwParamSetValue (fnmatch : CString → CString → Bool) (context : ParamContext γ)
    (call : SetCall) : ParamContext γ × Int × List (Delivery γ) :=
  let (root, rc) := hwParamSet context.root call.key call.value call.alloc
  let written := { context with root := root }
  (written, rc, match call.key, call.value with
    | some key, some value =>
      if rc = hwrunOk then
        hwParamNotify fnmatch written key (hwParamGet context.root key) value
      else []
    | _, _ => [])

/-- A call of `hw_param_set_value` leaves the watchers alone. -/
@[simp] theorem hwParamSetValue_watchers (fnmatch : CString → CString → Bool)
    (context : ParamContext γ) (call : SetCall) :
    (hwParamSetValue fnmatch context call).1.watchers = context.watchers := rfl

/-- A call of `hw_param_set_value` writes the tree as `hw_param_set` does. -/
@[simp] theorem hwParamSetValue_root (fnmatch : CString → CString → Bool)
    (context : ParamContext γ) (call : SetCall) :
    (hwParamSetValue fnmatch context call).1.root = setValueStep context.root call := rfl

/-- A call without a key or a value fails. -/
theorem hwParamSetValue_null (fnmatch : CString → CString → Bool) (context : ParamContext γ)
    {call : SetCall} (null : call.key = none ∨ call.value = none) :
    (hwParamSetValue fnmatch context call).2.1 = hwrunEinval := by
  unfold hwParamSetValue hwParamSet
  rcases null with missing | missing
  · simp [missing]
  · cases call.key with
    | none => rfl
    | some key => simp [missing]

end HwrunOs.Param
