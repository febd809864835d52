import HwrunOs.Param.Concurrent

/-!
# The tree as a finite map

Calls of `hw_param_set_value` share the nodes on the way to their keys, and such a node may hold a
value of its own. For keys whose parts fit the key of a node, and values that fit its value, what
`hw_param_get` returns is nevertheless what a finite map from whole keys holds: parts that were
not cut name their key, and siblings have different keys.
-/

namespace HwrunOs.Param

open HwrunOs.Bytes HwrunOs.Trees HwrunOs.Runs

/-! ## The map -/

/-- What the keys hold. -/
abbrev ParamMap := CString → Option CString

/-- Nothing was set. -/
def ParamMap.empty : ParamMap := fun _ => none

/-- The value a key holds once it is set: an empty one counts as none. -/
def held (value : CString) : Option CString := if value = [] then none else some value

/-- A call on the map: one that succeeded changes its key, and no other. -/
def ParamMap.set (map : ParamMap) : SetCall × Int → ParamMap
  | (⟨some key, some value, _⟩, rc) =>
    if rc = hwrunOk then Function.update map key (held value) else map
  | _ => map

/-- The calls of a run with what each returned. -/
def outcomes (tree : ParamTree) : List SetCall → List (SetCall × Int)
  | [] => []
  | call :: rest =>
    (call, (hwParamSet tree call.key call.value call.alloc).2) ::
      outcomes (setValueStep tree call) rest

/-- The value a successful call set for exactly this key. -/
def setFor (key : CString) : SetCall × Int → Option CString
  | (call, rc) => if rc = hwrunOk ∧ call.key = some key then call.value else none

/-- The value set last for exactly this key. -/
def lastSet (key : CString) (history : List (SetCall × Int)) : Option CString :=
  (history.filterMap (setFor key)).getLast?

/-- The map after a history holds for each key the value set last. -/
theorem run_set_eq_lastSet (key : CString) (history : List (SetCall × Int)) (map : ParamMap) :
    run ParamMap.set map history key =
      match lastSet key history with
      | some value => held value
      | none => map key := by
  induction history using List.reverseRecOn with
  | nil => rfl
  | append_singleton front last ih =>
    obtain ⟨⟨own, value, alloc⟩, rc⟩ := last
    rw [run_append, run_cons, run_nil, lastSet, List.filterMap_append]
    rw [lastSet] at ih
    cases own with
    | none => simpa [ParamMap.set, setFor] using ih
    | some own =>
      cases value with
      | none => simpa [ParamMap.set, setFor] using ih
      | some value =>
        by_cases success : rc = hwrunOk
        · by_cases same : own = key
          · subst same
            simp [ParamMap.set, setFor, success]
          · have other : key ≠ own := fun equal => same equal.symm
            simpa [ParamMap.set, setFor, success, same, Function.update_of_ne other] using ih
        · simpa [ParamMap.set, setFor, success] using ih

/-! ## Keys that fit -/

/-- Every part of the key fits the key of a node. -/
def ShortKey (key : CString) : Prop := ∀ part ∈ key.splitOn dot, part.length < 128

/-- A call whose key and value fit the fields of a node. -/
structure ShortCall (call : SetCall) : Prop where
  /-- The parts of the key are short. -/
  key : ∀ key, call.key = some key → ShortKey key
  /-- So is the value. -/
  value : ∀ value, call.value = some value → value.length < 256

instance (key : CString) : Decidable (ShortKey key) :=
  inferInstanceAs (Decidable (∀ part ∈ key.splitOn dot, part.length < 128))

/-- The parts of a short key are not cut. -/
theorem keyParts_short {key : CString} (short : ShortKey key) :
    keyParts key = key.splitOn dot := by
  have uncut : ∀ part ∈ key.splitOn dot, snprintf 128 part = part :=
    fun part listed => snprintf_eq (short part listed)
  rw [keyParts, List.map_congr_left uncut, List.map_id']

/-- Short keys with the same parts are the same, empty parts included. -/
theorem keyParts_inj {key other : CString} (short : ShortKey key) (otherShort : ShortKey other) :
    keyParts key = keyParts other ↔ key = other := by
  constructor
  · intro same
    rw [keyParts_short short, keyParts_short otherShort] at same
    have joined := congrArg ([dot].intercalate ·) same
    simpa only [List.intercalate_splitOn] using joined
  · exact congrArg keyParts

/-! ## One call -/

/-- What a successful call with a short value leaves under its own key, and what every call leaves
under another short key. -/
theorem hwParamGet_setValueStep {tree : ParamTree} {call : SetCall} (shortCall : ShortCall call)
    {key : CString} (short : ShortKey key) :
    hwParamGet (setValueStep tree call) key =
      match setFor key (call, (hwParamSet tree call.key call.value call.alloc).2) with
      | some value => held value
      | none => hwParamGet tree key := by
  obtain ⟨own, value, alloc⟩ := call
  cases own with
  | none => simp [setFor, setValueStep, hwParamSet]
  | some own =>
    cases value with
    | none => simp [setFor, setValueStep, hwParamSet]
    | some value =>
      by_cases success : (hwParamSet tree (some own) (some value) alloc).2 = hwrunOk
      · by_cases same : own = key
        · subst same
          have whole : snprintf 256 value = value := snprintf_eq (shortCall.value value rfl)
          simp only [setFor, success, true_and, if_true]
          show hwParamGet (hwParamSet tree (some own) (some value) alloc).1 own = _
          rw [hwParamGet_set own success, readBack, whole, held]
        · have apart : keyParts key ≠ keyParts own := by
            intro parts
            exact same ((keyParts_inj short (shortCall.key own rfl)).mp parts).symm
          have kept : lookup [] (keyParts key)
              (hwParamSet tree (some own) (some value) alloc).1 =
                lookup [] (keyParts key) tree := by
            show lookup [] (keyParts key) (insert _ _ _ _ _).1 = _
            rw [lookup_insert, if_neg fun both => apart both.1]
          simp only [setFor, success, Option.some.injEq, same, and_false, if_false]
          show hwParamGet (hwParamSet tree (some own) (some value) alloc).1 key = _
          rw [hwParamGet_eq, kept, hwParamGet_eq]
      · simp only [setFor, success, false_and, if_false]
        exact hwParamGet_failed own success key

/-- Setting a key changes no other short key: no prefix, no extension. -/
theorem hwParamGet_setValueStep_ne {tree : ParamTree} {call : SetCall}
    (shortCall : ShortCall call) {key : CString} (short : ShortKey key)
    (other : call.key ≠ some key) :
    hwParamGet (setValueStep tree call) key = hwParamGet tree key := by
  rw [hwParamGet_setValueStep shortCall short, setFor, if_neg fun both => other both.2]

/-- What the tree gives back after a run, by the value set last. -/
theorem hwParamGet_run {calls : List SetCall} (shortCalls : ∀ call ∈ calls, ShortCall call)
    (tree : ParamTree) {key : CString} (short : ShortKey key) :
    hwParamGet (run setValueStep tree calls) key =
      match lastSet key (outcomes tree calls) with
      | some value => held value
      | none => hwParamGet tree key := by
  induction calls generalizing tree with
  | nil => rfl
  | cons call rest ih =>
    have shortCall := shortCalls call List.mem_cons_self
    have later := ih (fun other listed => shortCalls other (List.mem_cons_of_mem _ listed))
      (setValueStep tree call)
    have first := @hwParamGet_setValueStep tree call shortCall key short
    rw [run_cons, later, first, outcomes, lastSet, lastSet, List.filterMap_cons]
    cases setFor key (call, (hwParamSet tree call.key call.value call.alloc).2) with
    | none => rfl
    | some value =>
      rw [List.getLast?_cons]
      cases (List.filterMap (setFor key) (outcomes (setValueStep tree call) rest)).getLast? <;> rfl

/-- The tree after a run of short calls holds what the map holds. -/
theorem hwParamGet_run_eq_map {calls : List SetCall}
    (shortCalls : ∀ call ∈ calls, ShortCall call) {key : CString} (short : ShortKey key) :
    hwParamGet (run setValueStep .null calls) key =
      run ParamMap.set .empty (outcomes .null calls) key := by
  have nothing : hwParamGet .null key = none := by
    rw [hwParamGet_eq, lookup_null, if_pos rfl]
  rw [hwParamGet_run shortCalls .null short, run_set_eq_lastSet, nothing]
  rfl

/-! ## The tree and the map -/

/-- Along every run of short calls the tree is the finite map of its short keys: each gives back
the value set last for exactly this key, a further call changes its own key alone, and no node has
two children with the same key. -/
theorem tree_finite_map {calls : List SetCall} (shortCalls : ∀ call ∈ calls, ShortCall call) :
    (∀ key, ShortKey key →
      hwParamGet (run setValueStep .null calls) key =
        run ParamMap.set .empty (outcomes .null calls) key ∧
      hwParamGet (run setValueStep .null calls) key =
        (lastSet key (outcomes .null calls)).bind held) ∧
    (∀ call, ShortCall call → ∀ key, ShortKey key → call.key ≠ some key →
      hwParamGet (setValueStep (run setValueStep .null calls) call) key =
        hwParamGet (run setValueStep .null calls) key) ∧
    UniqueKeys (run setValueStep .null calls) := by
  refine ⟨?_, ?_, ?_⟩
  · intro key short
    have map := hwParamGet_run_eq_map shortCalls short
    refine ⟨map, ?_⟩
    rw [map, run_set_eq_lastSet]
    cases lastSet key (outcomes .null calls) <;> rfl
  · intro call shortCall key short other
    exact hwParamGet_setValueStep_ne shortCall short other
  · have initial : Formed (.null : ParamTree) := trivial
    have formed : Formed (run setValueStep .null calls) :=
      run_invariant Formed (fun _ call formed => formed_step formed call) initial calls
    exact formed.uniqueKeys

/-- A key, its prefix, and the same parts around an empty one. -/
def nestedKeys : List SetCall :=
  [⟨some (lit "net.dns"), some (lit "on"), fun _ => true⟩,
    ⟨some (lit "net"), some (lit "eth0"), fun _ => true⟩,
    ⟨some (lit "net..dns"), some (lit "off"), fun _ => true⟩]

/-- The three keys hold their own values. -/
theorem nested_keys_apart :
    (∀ call ∈ nestedKeys, ShortCall call) ∧
    (lastSet (lit "net.dns") (outcomes .null nestedKeys)).bind held = some (lit "on") ∧
    hwParamGet (run setValueStep .null nestedKeys) (lit "net.dns") = some (lit "on") := by
  have short (key value : CString) (alloc : Nat → Bool) (named : ShortKey key)
      (fits : value.length < 256) : ShortCall ⟨some key, some value, alloc⟩ := by
    refine ⟨?_, ?_⟩
    · rintro other ⟨⟩
      exact named
    · rintro other ⟨⟩
      exact fits
  have calls : ∀ call ∈ nestedKeys, ShortCall call := by
    simp only [nestedKeys, List.forall_mem_cons]
    refine ⟨?_, ?_, ?_, by simp⟩
    all_goals exact short _ _ _ (by decide +kernel) (by decide)
  have last : (lastSet (lit "net.dns") (outcomes .null nestedKeys)).bind held =
      some (lit "on") := by decide +kernel
  refine ⟨calls, last, ?_⟩
  rw [((tree_finite_map calls).1 (lit "net.dns") (by decide +kernel)).2]
  exact last

end HwrunOs.Param
