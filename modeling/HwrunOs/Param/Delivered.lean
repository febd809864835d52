import HwrunOs.Param.Concurrent

/-!
# What watchers are told

`hw_param_set_value` keeps a copy of the value that is cut to `char value[256]`, and an empty copy
reads as none. The watchers get the old value as it was read, and the new one as the caller gave
it.
-/

namespace HwrunOs.Param

open HwrunOs.Bytes HwrunOs.Trees

variable {γ : Type} (fnmatch : CString → CString → Bool) (context : ParamContext γ)
  (key value : CString) (alloc : Nat → Bool)

/-- A delivery tells what `hw_param_get` returned before the call and what it returns after. -/
structure Delivery.Right (before after : ParamTree) (delivery : Delivery γ) : Prop where
  /-- The new value. -/
  newValue : hwParamGet after delivery.key = some delivery.newValue
  /-- The old value. -/
  oldValue : delivery.oldValue = hwParamGet before delivery.key

/-- A value is read back as it was given when it is neither empty nor cut. -/
theorem readBack_eq_some {value : CString} :
    readBack value = some value ↔ value ≠ [] ∧ value.length < 256 := by
  unfold readBack
  constructor
  · intro same
    split at same
    · cases same
    · rename_i filled
      have whole : snprintf 256 value = value := Option.some.inj same
      have short := snprintf_length value (by decide : 0 < 256)
      rw [whole] at filled short
      exact ⟨filled, short⟩
  · rintro ⟨filled, short⟩
    rw [snprintf_eq short, if_neg filled]

/-- The deliveries of a call that succeeded. -/
theorem hwParamSetValue_deliveries
    (success : (hwParamSetValue fnmatch context ⟨some key, some value, alloc⟩).2.1 = hwrunOk) :
    (hwParamSetValue fnmatch context ⟨some key, some value, alloc⟩).2.2 =
      (snapshot fnmatch key context.watchers).map fun callback =>
        ⟨callback, key, hwParamGet context.root key, value⟩ := by
  unfold hwParamSetValue at success ⊢
  dsimp only at success ⊢
  rw [if_pos success]
  rfl

/-- Somebody is told exactly when a watcher matches. -/
theorem snapshot_eq_nil (watchers : List (Watcher γ)) :
    snapshot fnmatch key watchers = [] ↔
      ∀ watcher ∈ watchers, watcher.matches fnmatch key = false := by
  rw [snapshot, List.map_eq_nil_iff, List.take_eq_nil_iff, List.filter_eq_nil_iff]
  have room : snapsMax ≠ 0 := by decide
  constructor
  · intro none watcher listed
    simpa using none.resolve_left room watcher listed
  · intro none
    right
    intro watcher listed
    simp [none watcher listed]

/-- Every delivery of a call that succeeded is right exactly when no watcher matches, or the value
is neither empty nor longer than a node keeps. -/
theorem hwParamSetValue_right_iff
    (success : (hwParamSetValue fnmatch context ⟨some key, some value, alloc⟩).2.1 = hwrunOk) :
    (∀ delivery ∈ (hwParamSetValue fnmatch context ⟨some key, some value, alloc⟩).2.2,
      delivery.Right context.root
        (hwParamSetValue fnmatch context ⟨some key, some value, alloc⟩).1.root) ↔
      (∀ watcher ∈ context.watchers, watcher.matches fnmatch key = false) ∨
        (value ≠ [] ∧ value.length < 256) := by
  have after : hwParamGet
      (hwParamSetValue fnmatch context ⟨some key, some value, alloc⟩).1.root key =
        readBack value := hwParamGet_set key success
  rw [hwParamSetValue_deliveries fnmatch context key value alloc success,
    ← snapshot_eq_nil fnmatch key context.watchers, ← readBack_eq_some]
  constructor
  · intro right
    cases told : snapshot fnmatch key context.watchers with
    | nil => exact .inl rfl
    | cons callback others =>
      have first := right ⟨callback, key, hwParamGet context.root key, value⟩ (by
        rw [told]
        exact List.mem_cons_self)
      exact .inr (after.symm.trans first.newValue)
  · intro same delivery listed
    obtain ⟨callback, found, rfl⟩ := List.mem_map.mp listed
    rcases same with none | whole
    · rw [none] at found
      cases found
    · exact ⟨after.trans whole, rfl⟩

/-! ## One watcher -/

/-- A watcher of every key. -/
def oneWatcher : ParamContext Nat := ⟨.null, [⟨Field.copy (lit "fsp"), Field.copy [], 0⟩]⟩

/-- An empty value is set. -/
def emptied : ParamContext Nat × Int × List (Delivery Nat) :=
  hwParamSetValue (fun _ _ => true) oneWatcher ⟨some (lit "a"), some [], fun _ => true⟩

/-- A value of 256 bytes is set. -/
def stretched : ParamContext Nat × Int × List (Delivery Nat) :=
  hwParamSetValue (fun _ _ => true) oneWatcher
    ⟨some (lit "a"), some (List.replicate 256 97), fun _ => true⟩

/-- The watcher is told the empty value where `hw_param_get` returns none, and all 256 bytes where
it returns 255. -/
theorem told_otherwise :
    (emptied.2 = (hwrunOk, [⟨0, lit "a", none, []⟩]) ∧
      ¬ ∀ delivery ∈ emptied.2.2, delivery.Right oneWatcher.root emptied.1.root) ∧
    (stretched.2 = (hwrunOk, [⟨0, lit "a", none, List.replicate 256 97⟩]) ∧
      ¬ ∀ delivery ∈ stretched.2.2, delivery.Right oneWatcher.root stretched.1.root) := by
  have noneLeft : hwParamGet emptied.1.root (lit "a") = none := by decide +kernel
  have cut : hwParamGet stretched.1.root (lit "a") = some (List.replicate 255 97) := by
    decide +kernel
  have told : emptied.2 = (hwrunOk, [⟨0, lit "a", none, []⟩]) := by decide +kernel
  have toldLong : stretched.2 = (hwrunOk, [⟨0, lit "a", none, List.replicate 256 97⟩]) := by
    decide +kernel
  refine ⟨⟨told, fun right => ?_⟩, ⟨toldLong, fun right => ?_⟩⟩
  · rw [told] at right
    have same := (right _ List.mem_cons_self).newValue
    rw [noneLeft] at same
    cases same
  · rw [toldLong] at right
    have same := (right _ List.mem_cons_self).newValue
    rw [cut] at same
    exact absurd same (by decide +kernel)

/-- The theorem for a value that a node keeps whole. -/
theorem hwParamSetValue_right_iff_short :
    (∀ delivery ∈ (hwParamSetValue (fun _ _ => true) oneWatcher
        ⟨some (lit "a"), some (lit "on"), fun _ => true⟩).2.2,
      delivery.Right oneWatcher.root
        (hwParamSetValue (fun _ _ => true) oneWatcher
          ⟨some (lit "a"), some (lit "on"), fun _ => true⟩).1.root) ↔
      (∀ watcher ∈ oneWatcher.watchers, watcher.matches (fun _ _ => true) (lit "a") = false) ∨
        (lit "on" ≠ [] ∧ (lit "on").length < 256) :=
  hwParamSetValue_right_iff (fun _ _ => true) oneWatcher (lit "a") (lit "on") (fun _ => true)
    (by decide +kernel)

end HwrunOs.Param
