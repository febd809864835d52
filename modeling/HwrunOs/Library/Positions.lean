import HwrunOs.Library.KeyTree

/-!
# Positions in trees of keyed children

A pointer inside a tree is named by the turns on the way to it, to the children of a node or to the
sibling after it. Insertion replaces null pointers and values only, so a position names the same
pointer after it. An insertion that runs out of memory leaves a tree that has grown by blank nodes.
-/

namespace HwrunOs.Trees

variable {κ β : Type*}

/-- Which pointer of a node is followed. -/
inductive Turn where
  /-- To the first child. -/
  | child
  /-- To the next sibling. -/
  | sibling
  deriving DecidableEq

/-- What a pointer of the first node points to. -/
def follow : KeyTree κ β → Turn → KeyTree κ β
  | .null, _ => .null
  | .node _ _ child _, .child => child
  | .node _ _ _ sibling, .sibling => sibling

/-- What the pointer at a position points to. -/
def reached (position : List Turn) (tree : KeyTree κ β) : KeyTree κ β := position.foldl follow tree

/-- One turn more. -/
@[simp] theorem reached_snoc (position : List Turn) (turn : Turn) (tree : KeyTree κ β) :
    reached (position ++ [turn]) tree = follow (reached position tree) turn := by
  simp [reached]

/-! ## Growth by blank nodes -/

/-- The second tree has the nodes of the first, and perhaps blank ones behind them. -/
inductive Grown (blank : β) : KeyTree κ β → KeyTree κ β → Prop where
  /-- Nothing is added. -/
  | null : Grown blank .null .null
  /-- A blank node is added, with blank nodes below it. -/
  | create (key : κ) {child : KeyTree κ β} (below : Grown blank .null child) :
      Grown blank .null (.node key blank child .null)
  /-- A node stays. -/
  | node (key : κ) (value : β) {child sibling newChild newSibling : KeyTree κ β}
      (below : Grown blank child newChild) (beside : Grown blank sibling newSibling) :
      Grown blank (.node key value child sibling) (.node key value newChild newSibling)

/-- A tree that stays has grown. -/
theorem Grown.refl (blank : β) (tree : KeyTree κ β) : Grown blank tree tree := by
  induction tree with
  | null => exact .null
  | node key value child sibling ihChild ihSibling => exact .node key value ihChild ihSibling

/-- A grown tree has grown behind every pointer of its first node. -/
theorem Grown.follow {blank : β} {tree grown : KeyTree κ β} (more : Grown blank tree grown)
    (turn : Turn) : Grown blank (follow tree turn) (follow grown turn) := by
  cases more with
  | null => exact .null
  | create key below =>
    cases turn with
    | child => exact below
    | sibling => exact .null
  | node key value below beside =>
    cases turn with
    | child => exact below
    | sibling => exact beside

/-- A grown tree has grown at every position. -/
theorem Grown.reached {blank : β} {tree grown : KeyTree κ β} (more : Grown blank tree grown)
    (position : List Turn) : Grown blank (reached position tree) (reached position grown) := by
  induction position generalizing tree grown with
  | nil => exact more
  | cons turn rest ih => exact ih (more.follow turn)

variable [DecidableEq κ]

/-- An update whose change fails only after growing the children grows the tree. -/
theorem grown_update {blank : β} {alloc : Bool} {key : κ}
    {change : β × KeyTree κ β → (β × KeyTree κ β) × Bool}
    (fails : ∀ node, (change node).2 = false →
      (change node).1.1 = node.1 ∧ Grown blank node.2 (change node).1.2)
    {tree : KeyTree κ β} (failed : (update blank alloc key change tree).2 = false) :
    Grown blank tree (update blank alloc key change tree).1 := by
  induction tree with
  | null =>
    cases alloc with
    | true =>
      obtain ⟨value, below⟩ := fails (blank, .null) failed
      show Grown blank .null (.node key (change (blank, .null)).1.1 _ .null)
      rw [value]
      exact .create key below
    | false => exact .null
  | node other value child sibling _ ih =>
    by_cases same : other = key
    · rw [update, if_pos same] at failed ⊢
      obtain ⟨kept, below⟩ := fails (value, child) failed
      show Grown blank _ (.node other (change (value, child)).1.1 _ sibling)
      rw [kept]
      exact .node other value below (.refl blank sibling)
    · rw [update, if_neg same] at failed ⊢
      exact .node other value (.refl blank child) (ih failed)

/-- An insertion without memory has made blank nodes at most. -/
theorem grown_insert {blank value : β} {path : List κ} {alloc : Nat → Bool} {tree : KeyTree κ β}
    (failed : (insert blank value path alloc tree).2 = false) :
    Grown blank tree (insert blank value path alloc tree).1 := by
  induction path generalizing alloc tree with
  | nil => exact .refl blank tree
  | cons key rest ih =>
    rw [insert] at failed ⊢
    refine grown_update ?_ failed
    intro node missed
    cases rest with
    | nil => cases missed
    | cons next rest =>
      have below : Grown blank node.2
          (insert blank value (next :: rest) (fun depth => alloc (depth + 1)) node.2).1 := ih missed
      exact ⟨rfl, below⟩

end HwrunOs.Trees
