import Mathlib.Data.List.Basic

/-!
# Trees of keyed children

A list of siblings, each with a key, a value and a list of children, held by pointers to the
first child and to the next sibling. A node is reached by the keys on the way to it. Insertion
creates the missing nodes on its way with a blank value; each creation may fail, and the nodes
created before the failure stay.
-/

namespace HwrunOs.Trees

/-- A list of siblings: none, or a node with its children and the siblings after it. -/
inductive KeyTree (κ β : Type*) where
  /-- The end of the list. -/
  | null
  /-- A node. -/
  | node (key : κ) (value : β) (child sibling : KeyTree κ β)

variable {κ β : Type*} [DecidableEq κ]

/-- The first sibling with a key: its value and its children. -/
def getChild (key : κ) : KeyTree κ β → Option (β × KeyTree κ β)
  | .null => none
  | .node other value child sibling =>
    if other = key then some (value, child) else getChild key sibling

/-- The value of the node at a path. -/
def find : List κ → KeyTree κ β → Option β
  | [], _ => none
  | key :: rest, tree =>
    match getChild key tree with
    | none => none
    | some (value, child) => if rest.isEmpty then some value else find rest child

/-- Change the first sibling with a key, or append one with a blank value and change it; the
new sibling needs memory, and the change reports its own success. -/
def update (blank : β) (alloc : Bool) (key : κ)
    (change : β × KeyTree κ β → (β × KeyTree κ β) × Bool) : KeyTree κ β → KeyTree κ β × Bool
  | .null =>
    if alloc then
      let ((value, child), done) := change (blank, .null)
      (.node key value child .null, done)
    else (.null, false)
  | .node other value child sibling =>
    if other = key then
      let ((value, child), done) := change (value, child)
      (.node other value child sibling, done)
    else
      let (sibling, done) := update blank alloc key change sibling
      (.node other value child sibling, done)

/-- Write the value at a path, creating the nodes on the way; `alloc` says by depth whether a
creation has memory. -/
def insert (blank value : β) : List κ → (Nat → Bool) → KeyTree κ β → KeyTree κ β × Bool
  | [], _, tree => (tree, false)
  | key :: rest, alloc, tree =>
    update blank (alloc 0) key
      (fun node =>
        if rest.isEmpty then ((value, node.2), true)
        else
          let (child, done) := insert blank value rest (fun depth => alloc (depth + 1)) node.2
          ((node.1, child), done)) tree

/-- The value at a path, blank where there is no node. -/
def lookup (blank : β) (path : List κ) (tree : KeyTree κ β) : β := (find path tree).getD blank

/-! ## Lookup after an update -/

/-- The child that an update leaves under its key: the changed one. -/
theorem getChild_update_self (blank : β) (alloc : Bool) (key : κ)
    (change : β × KeyTree κ β → (β × KeyTree κ β) × Bool) (tree : KeyTree κ β) :
    getChild key (update blank alloc key change tree).1 =
      match getChild key tree with
      | some node => some (change node).1
      | none => if alloc then some (change (blank, .null)).1 else none := by
  induction tree with
  | null => cases alloc <;> simp [update, getChild]
  | node other value child sibling _ ih =>
    by_cases same : other = key
    · simp [update, getChild, same]
    · simpa [update, getChild, same] using ih

/-- An update reports the success of the change, or a missing node without memory. -/
theorem update_done (blank : β) (alloc : Bool) (key : κ)
    (change : β × KeyTree κ β → (β × KeyTree κ β) × Bool) (tree : KeyTree κ β) :
    (update blank alloc key change tree).2 =
      match getChild key tree with
      | some node => (change node).2
      | none => alloc && (change (blank, .null)).2 := by
  induction tree with
  | null => cases alloc <;> simp [update, getChild]
  | node other value child sibling _ ih =>
    by_cases same : other = key
    · simp [update, getChild, same]
    · simpa [update, getChild, same] using ih

/-- An update leaves the children under other keys alone. -/
theorem getChild_update_ne {blank : β} {alloc : Bool} {key other : κ} (different : other ≠ key)
    (change : β × KeyTree κ β → (β × KeyTree κ β) × Bool) (tree : KeyTree κ β) :
    getChild other (update blank alloc key change tree).1 = getChild other tree := by
  induction tree with
  | null => cases alloc <;> simp [update, getChild, different.symm]
  | node first value child sibling _ ih =>
    by_cases same : first = key
    · have passed : ¬ first = other := fun equal => different (equal.symm.trans same)
      simp only [update, if_pos same, getChild, if_neg passed]
    · simp only [update, if_neg same, getChild, ih]

/-- The node under a key, blank and without children where there is none. -/
def child (blank : β) (key : κ) (tree : KeyTree κ β) : β × KeyTree κ β :=
  (getChild key tree).getD (blank, .null)

/-- Nothing is found among no siblings. -/
theorem lookup_null (blank : β) (path : List κ) :
    lookup blank path (.null : KeyTree κ β) = blank := by
  cases path <;> rfl

/-- Lookup descends through the first key. -/
theorem lookup_cons (blank : β) (key : κ) (rest : List κ) (tree : KeyTree κ β) :
    lookup blank (key :: rest) tree =
      if rest = [] then (child blank key tree).1
      else lookup blank rest (child blank key tree).2 := by
  rw [lookup, find, child]
  cases getChild key tree with
  | none =>
    have nothing := @lookup_null κ β _ blank rest
    by_cases last : rest = []
    · simp [last]
    · simp [last, nothing]
  | some node =>
    by_cases last : rest = []
    · simp [last]
    · simp [last, lookup]

/-- The value at a path after an insertion: the new one at its own path, if it succeeded, and
the old one everywhere else. -/
theorem lookup_insert (blank value : β) (path other : List κ) (alloc : Nat → Bool)
    (tree : KeyTree κ β) :
    lookup blank other (insert blank value path alloc tree).1 =
      if other = path ∧ (insert blank value path alloc tree).2 = true then value
      else lookup blank other tree := by
  induction path generalizing other alloc tree with
  | nil => simp [insert]
  | cons key rest ih =>
    cases other with
    | nil => simp [lookup, find]
    | cons first others =>
      rw [lookup_cons, lookup_cons]
      by_cases same : first = key
      · subst same
        -- What the change does to the node it finds, or to the blank one it creates.
        let step : β × KeyTree κ β → (β × KeyTree κ β) × Bool := fun node =>
          if rest.isEmpty then ((value, node.2), true)
          else
            let (child, done) := insert blank value rest (fun depth => alloc (depth + 1)) node.2
            ((node.1, child), done)
        have changed (node : β × KeyTree κ β) :
            (if others = [] then (step node).1.1 else lookup blank others (step node).1.2) =
              if others = rest ∧ (step node).2 = true then value
              else if others = [] then node.1 else lookup blank others node.2 := by
          cases rest with
          | nil => by_cases last : others = [] <;> simp [step, last]
          | cons next rest =>
            have below := ih others (fun depth => alloc (depth + 1)) node.2
            by_cases last : others = []
            · simp [step, last]
            · simpa [step, last] using below
        have self := getChild_update_self blank (alloc 0) first step tree
        have done := update_done blank (alloc 0) first step tree
        have whole : insert blank value (first :: rest) alloc tree =
            update blank (alloc 0) first step tree := rfl
        rw [whole, done, child, self, child]
        simp only [List.cons.injEq, true_and]
        cases getChild first tree with
        | some node => exact changed node
        | none =>
          cases alloc 0 with
          | true => simpa using changed (blank, .null)
          | false => simp
      · have kept : child blank first (insert blank value (key :: rest) alloc tree).1 =
            child blank first tree := by
          rw [child, insert, getChild_update_ne same, child]
        simp [kept, same]

/-! ## Well-formed trees -/

variable {keyOk : κ → Prop} {valueOk : β → Prop}

/-- Keys and values meet their conditions, and no two siblings have the same key. -/
def WellFormed (keyOk : κ → Prop) (valueOk : β → Prop) : KeyTree κ β → Prop
  | .null => True
  | .node key value child sibling =>
    keyOk key ∧ valueOk value ∧ getChild key sibling = none ∧
      WellFormed keyOk valueOk child ∧ WellFormed keyOk valueOk sibling

/-- An update that keeps a node well-formed keeps the tree well-formed. -/
theorem WellFormed.update {blank : β} (blankOk : valueOk blank) {alloc : Bool} {key : κ}
    (named : keyOk key) {change : β × KeyTree κ β → (β × KeyTree κ β) × Bool}
    (keeps : ∀ node : β × KeyTree κ β, valueOk node.1 → WellFormed keyOk valueOk node.2 →
      valueOk (change node).1.1 ∧ WellFormed keyOk valueOk (change node).1.2)
    {tree : KeyTree κ β} (formed : WellFormed keyOk valueOk tree) :
    WellFormed keyOk valueOk (update blank alloc key change tree).1 := by
  induction tree with
  | null =>
    cases alloc with
    | true =>
      obtain ⟨value, child⟩ := keeps (blank, .null) blankOk trivial
      exact ⟨named, value, rfl, child, trivial⟩
    | false => exact trivial
  | node other value child sibling _ ih =>
    obtain ⟨otherOk, ok, fresh, below, beside⟩ := formed
    by_cases same : other = key
    · obtain ⟨newOk, newChild⟩ := keeps (value, child) ok below
      rw [Trees.update, if_pos same]
      exact ⟨otherOk, newOk, fresh, newChild, beside⟩
    · rw [Trees.update, if_neg same]
      exact ⟨otherOk, ok, (getChild_update_ne same change sibling).trans fresh, below, ih beside⟩

/-- An insertion of good keys and a good value keeps the tree well-formed. -/
theorem WellFormed.insert {blank value : β} (blankOk : valueOk blank) (ok : valueOk value)
    {path : List κ} (named : ∀ key ∈ path, keyOk key) (alloc : Nat → Bool) {tree : KeyTree κ β}
    (formed : WellFormed keyOk valueOk tree) :
    WellFormed keyOk valueOk (insert blank value path alloc tree).1 := by
  induction path generalizing alloc tree with
  | nil => exact formed
  | cons key rest ih =>
    rw [Trees.insert]
    apply formed.update blankOk (named key List.mem_cons_self)
    intro node nodeOk below
    split
    · exact ⟨ok, below⟩
    · exact ⟨nodeOk, ih (fun other listed => named other (List.mem_cons_of_mem _ listed)) _ below⟩

/-- A node found among the siblings meets the conditions. -/
theorem WellFormed.getChild {tree : KeyTree κ β} (formed : WellFormed keyOk valueOk tree)
    {key : κ} {node : β × KeyTree κ β} (found : getChild key tree = some node) :
    keyOk key ∧ valueOk node.1 ∧ WellFormed keyOk valueOk node.2 := by
  induction tree with
  | null => cases found
  | node other value child sibling _ ih =>
    obtain ⟨otherOk, ok, -, below, beside⟩ := formed
    rw [Trees.getChild] at found
    split at found
    · rename_i same
      obtain rfl := Option.some.inj found
      exact ⟨same ▸ otherOk, ok, below⟩
    · exact ih beside found

/-- The keys on the way to a node and its value meet the conditions. -/
theorem WellFormed.find {tree : KeyTree κ β} (formed : WellFormed keyOk valueOk tree)
    {path : List κ} {value : β} (found : find path tree = some value) :
    (∀ key ∈ path, keyOk key) ∧ valueOk value := by
  induction path generalizing tree with
  | nil => cases found
  | cons key rest ih =>
    rw [Trees.find] at found
    cases first : Trees.getChild key tree with
    | none => simp [first] at found
    | some node =>
      obtain ⟨named, ok, below⟩ := formed.getChild first
      simp only [first] at found
      cases rest with
      | nil =>
        obtain rfl := Option.some.inj found
        exact ⟨by simpa using named, ok⟩
      | cons next rest =>
        obtain ⟨others, valued⟩ := ih below found
        exact ⟨List.forall_mem_cons.mpr ⟨named, others⟩, valued⟩

/-- The keys of siblings. -/
def siblingKeys : KeyTree κ β → List κ
  | .null => []
  | .node key _ _ sibling => key :: siblingKeys sibling

/-- No node, and not the root, has two children with the same key. -/
def UniqueKeys : KeyTree κ β → Prop
  | .null => True
  | .node key _ child sibling =>
    key ∉ siblingKeys sibling ∧ UniqueKeys child ∧ UniqueKeys sibling

/-- No child is found under a key that no sibling has. -/
theorem getChild_eq_none_iff {key : κ} {tree : KeyTree κ β} :
    getChild key tree = none ↔ key ∉ siblingKeys tree := by
  induction tree with
  | null => simp [Trees.getChild, siblingKeys]
  | node other value child sibling _ ih =>
    by_cases same : other = key
    · simp [Trees.getChild, siblingKeys, same]
    · have apart : ¬ key = other := fun equal => same equal.symm
      simp [Trees.getChild, siblingKeys, same, apart, ih]

/-- Siblings of a well-formed tree have different keys. -/
theorem WellFormed.uniqueKeys {tree : KeyTree κ β} (formed : WellFormed keyOk valueOk tree) :
    UniqueKeys tree := by
  induction tree with
  | null => trivial
  | node key value child sibling ihChild ihSibling =>
    obtain ⟨-, -, fresh, below, beside⟩ := formed
    exact ⟨getChild_eq_none_iff.mp fresh, ihChild below, ihSibling beside⟩

/-! ## The nodes in order -/

/-- The nodes below a path, each before its children and its later siblings. -/
def entries : List κ → KeyTree κ β → List (List κ × β)
  | _, .null => []
  | front, .node key value child sibling =>
    (front ++ [key], value) :: (entries (front ++ [key]) child ++ entries front sibling)

/-- Nothing is found among no siblings. -/
theorem find_null (path : List κ) : find path (.null : KeyTree κ β) = none := by
  cases path <;> rfl

/-- The search goes into the first node when it has the first key, and past it else. -/
theorem find_node (key other : κ) (own : β) (child sibling : KeyTree κ β) (rest : List κ) :
    find (other :: rest) (.node key own child sibling) =
      if key = other then if rest = [] then some own else find rest child
      else find (other :: rest) sibling := by
  rw [find, getChild]
  by_cases same : key = other
  · simp [same]
  · simp [same, find]

/-- The listed nodes are the ones that can be found. -/
theorem mem_entries {tree : KeyTree κ β} (formed : WellFormed keyOk valueOk tree)
    {front path : List κ} {value : β} :
    (path, value) ∈ entries front tree ↔ ∃ rest, path = front ++ rest ∧
      find rest tree = some value := by
  induction tree generalizing front path with
  | null => simp [entries, find_null]
  | node key own child sibling ihChild ihSibling =>
    obtain ⟨-, -, fresh, below, beside⟩ := formed
    rw [entries, List.mem_cons, List.mem_append, ihChild below, ihSibling beside, Prod.mk.injEq]
    constructor
    · rintro (⟨rfl, rfl⟩ | ⟨rest, rfl, found⟩ | ⟨rest, rfl, found⟩)
      · exact ⟨[key], rfl, by simp [find_node]⟩
      · have deeper : rest ≠ [] := by
          rintro rfl
          cases found
        refine ⟨key :: rest, by simp, ?_⟩
        rw [find_node, if_pos rfl, if_neg deeper]
        exact found
      · refine ⟨rest, rfl, ?_⟩
        cases rest with
        | nil => cases found
        | cons other rest =>
          have different : ¬ key = other := by
            rintro rfl
            simp [find, fresh] at found
          rw [find_node, if_neg different]
          exact found
    · rintro ⟨rest, rfl, found⟩
      cases rest with
      | nil => cases found
      | cons other rest =>
        rw [find_node] at found
        by_cases same : key = other
        · rw [if_pos same] at found
          by_cases last : rest = []
          · rw [if_pos last] at found
            exact .inl ⟨by rw [last, same], (Option.some.inj found).symm⟩
          · rw [if_neg last] at found
            exact .inr (.inl ⟨rest, by simp [same], found⟩)
        · rw [if_neg same] at found
          exact .inr (.inr ⟨other :: rest, rfl, found⟩)

/-! ## Assignments in order -/

/-- Write the value of every pair at its path, in order. -/
def assign (blank : β) (pairs : List (List κ × β)) (tree : KeyTree κ β) : KeyTree κ β :=
  pairs.foldl (fun tree pair => (insert blank pair.2 pair.1 (fun _ => true) tree).1) tree

/-- An insertion at a path of at least one key succeeds when there is memory. -/
theorem insert_done (blank value : β) {path : List κ} (filled : path ≠ []) (tree : KeyTree κ β) :
    (insert blank value path (fun _ => true) tree).2 = true := by
  induction path generalizing tree with
  | nil => exact absurd rfl filled
  | cons key rest ih =>
    have change (node : β × KeyTree κ β) :
        (if rest.isEmpty then ((value, node.2), true)
          else
            let (child, done) := insert blank value rest (fun _ => true) node.2
            ((node.1, child), done) : (β × KeyTree κ β) × Bool).2 = true := by
      cases rest with
      | nil => rfl
      | cons next rest => exact ih (List.cons_ne_nil next rest) node.2
    rw [insert, update_done]
    cases getChild key tree with
    | none => simpa using change (blank, .null)
    | some node => exact change node

/-- The value at a path after some assignments is the one before or one that was assigned. -/
theorem lookup_assign (blank : β) {pairs : List (List κ × β)}
    (filled : ∀ pair ∈ pairs, pair.1 ≠ []) (path : List κ) (tree : KeyTree κ β) :
    lookup blank path (assign blank pairs tree) = lookup blank path tree ∨
      ∃ value, (path, value) ∈ pairs ∧ lookup blank path (assign blank pairs tree) = value := by
  induction pairs generalizing tree with
  | nil => exact .inl rfl
  | cons pair rest ih =>
    have first := lookup_insert blank pair.2 pair.1 path (fun _ => true) tree
    rw [insert_done blank pair.2 (filled pair List.mem_cons_self) tree] at first
    have later := ih (fun other listed => filled other (List.mem_cons_of_mem _ listed))
      (insert blank pair.2 pair.1 (fun _ => true) tree).1
    show lookup blank path (assign blank rest _) = _ ∨ ∃ value, _ ∧
      lookup blank path (assign blank rest _) = value
    rcases later with kept | ⟨value, listed, assigned⟩
    · rw [kept, first]
      by_cases here : path = pair.1
      · rw [if_pos ⟨here, rfl⟩]
        exact .inr ⟨pair.2, by rw [here]; exact List.mem_cons_self, rfl⟩
      · rw [if_neg (fun both => here both.1)]
        exact .inl rfl
    · exact .inr ⟨value, List.mem_cons_of_mem _ listed, assigned⟩

/-- A path that is assigned one value only has that value afterwards. -/
theorem lookup_assign_of_mem (blank : β) {pairs : List (List κ × β)}
    (filled : ∀ pair ∈ pairs, pair.1 ≠ []) {path : List κ} {value : β}
    (listed : (path, value) ∈ pairs) (agree : ∀ other, (path, other) ∈ pairs → other = value)
    (tree : KeyTree κ β) : lookup blank path (assign blank pairs tree) = value := by
  obtain ⟨front, back, rfl⟩ := List.append_of_mem listed
  have here := lookup_insert blank value path path (fun _ => true) (assign blank front tree)
  rw [insert_done blank value (filled _ listed) _, if_pos ⟨rfl, rfl⟩] at here
  have split : assign blank (front ++ (path, value) :: back) tree =
      assign blank back (insert blank value path (fun _ => true) (assign blank front tree)).1 :=
    List.foldl_append
  rw [split]
  have backFilled : ∀ pair ∈ back, pair.1 ≠ [] := fun pair member =>
    filled pair (List.mem_append_right _ (List.mem_cons_of_mem _ member))
  rcases lookup_assign blank backFilled path
      (insert blank value path (fun _ => true) (assign blank front tree)).1 with
    kept | ⟨other, member, assigned⟩
  · rw [kept, here]
  · rw [assigned]
    exact agree other (List.mem_append_right _ (List.mem_cons_of_mem _ member))

end HwrunOs.Trees
