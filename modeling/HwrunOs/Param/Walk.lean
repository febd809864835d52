import HwrunOs.Library.Positions
import HwrunOs.Param.File

/-!
# Saving while the tree changes

`hw_param_tree_save` follows the pointers of the tree without its lock, so sets may come between
two nodes. Nodes are never removed, and a new one is linked with its key and an empty value, so to
read a pointer and then the node behind it is to read both when the node is read.
-/

namespace HwrunOs.Param

open HwrunOs.Bytes HwrunOs.Trees

/-- The loops under way in `hw_param_tree_save`, the innermost first: the name above, and the
position of the pointer that is read next. -/
abbrev Walk : Type := List (CString × List Turn)

/-- The loop over the children of the root. -/
def walkStart : Walk := [([], [])]

/-- The next pointer is read: what is written for its node, and the loops after that. -/
def walkStep (tree : ParamTree) : Walk → CString × Walk
  | [] => ([], [])
  | (above, position) :: outer =>
    match reached position tree with
    | .null => ([], outer)
    | .node key value _ _ =>
      let name := belowName above key
      (if value ≠ [] then name ++ lit ": " ++ value ++ [newline] else [],
        (name, position ++ [.child]) :: (above, position ++ [.sibling]) :: outer)

/-- What is still written if the tree stays as it is. -/
def walkText (tree : ParamTree) (walk : Walk) : CString :=
  walk.flatMap fun loop => hwParamTreeSave loop.1 (reached loop.2 tree)

/-- In the beginning that is the whole file. -/
theorem walkText_start (tree : ParamTree) : walkText tree walkStart = hwParamSaveFile tree :=
  List.append_nil _

/-- One step writes the first part of it. -/
theorem walkText_step (tree : ParamTree) (walk : Walk) :
    walkText tree walk = (walkStep tree walk).1 ++ walkText tree (walkStep tree walk).2 := by
  cases walk with
  | nil => rfl
  | cons loop outer =>
    obtain ⟨above, position⟩ := loop
    cases here : reached position tree with
    | null => simp [walkText, walkStep, here, hwParamTreeSave]
    | node key value child sibling =>
      simp [walkText, walkStep, here, hwParamTreeSave, Trees.follow]

/-- A walk that is not interrupted ends. -/
theorem walk_ends (tree : ParamTree) (walk : Walk) :
    ∃ count, (fun walk => (walkStep tree walk).2)^[count] walk = [] := by
  -- One loop is done when what it has in front of it is.
  have loop (below : ParamTree) : ∀ above position outer, reached position tree = below →
      ∃ count,
        (fun walk => (walkStep tree walk).2)^[count] ((above, position) :: outer) = outer := by
    induction below with
    | null =>
      intro above position outer here
      exact ⟨1, by simp [walkStep, here]⟩
    | node key value child sibling ihChild ihSibling =>
      intro above position outer here
      obtain ⟨first, children⟩ := ihChild (belowName above key) (position ++ [.child])
        ((above, position ++ [.sibling]) :: outer) (by rw [reached_snoc, here, Trees.follow])
      obtain ⟨second, siblings⟩ := ihSibling above (position ++ [.sibling]) outer
        (by rw [reached_snoc, here, Trees.follow])
      have step : (walkStep tree ((above, position) :: outer)).2 =
          (belowName above key, position ++ [.child]) ::
            (above, position ++ [.sibling]) :: outer := by
        simp only [walkStep, here]
      refine ⟨second + (first + 1), ?_⟩
      rw [Function.iterate_add_apply, Function.iterate_succ_apply, step, children, siblings]
  induction walk with
  | nil => exact ⟨0, rfl⟩
  | cons frame outer ih =>
    obtain ⟨first, inner⟩ := loop _ frame.1 frame.2 outer rfl
    obtain ⟨second, rest⟩ := ih
    exact ⟨second + first, by rw [Function.iterate_add_apply, inner, rest]⟩

/-- Blank nodes are not written. -/
theorem hwParamTreeSave_grown {tree grown : ParamTree} (more : Grown [] tree grown)
    (above : CString) : hwParamTreeSave above grown = hwParamTreeSave above tree := by
  induction more generalizing above with
  | null => rfl
  | create key _ ih => simp [hwParamTreeSave, ih]
  | node key value _ _ ihBelow ihBeside => simp [hwParamTreeSave, ihBelow, ihBeside]

/-- Nor does a walk write more when they are added. -/
theorem walkText_grown {tree grown : ParamTree} (more : Grown [] tree grown) (walk : Walk) :
    walkText grown walk = walkText tree walk := by
  unfold walkText
  congr 1
  funext loop
  exact hwParamTreeSave_grown (more.reached loop.2) loop.1

/-- A set that fails adds blank nodes at most. -/
theorem grown_hwParamSet {tree : ParamTree} {key value : Option CString} {alloc : Nat → Bool}
    (failed : (hwParamSet tree key value alloc).2 ≠ hwrunOk) :
    Grown [] tree (hwParamSet tree key value alloc).1 := by
  unfold hwParamSet at failed ⊢
  split
  next key value =>
    refine grown_insert ?_
    by_contra done
    rw [Bool.not_eq_false] at done
    simp only [if_pos done] at failed
    exact failed rfl
  next => exact .refl [] tree

end HwrunOs.Param
