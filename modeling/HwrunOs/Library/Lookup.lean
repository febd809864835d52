import Mathlib.Data.List.Nodup

/-!
# Looking up the first match

A lookup in a linked list returns the first match, so it depends on the order of the list
exactly where more than one element matches.
-/

namespace HwrunOs.Lookup

variable {α : Type*}

/-- The first match in a list without repetitions is the last match too exactly when it is the
only one. -/
theorem find?_reverse_iff {list : List α} (distinct : list.Nodup) (matching : α → Bool) :
    list.reverse.find? matching = list.find? matching ↔
      ∀ first ∈ list, ∀ second ∈ list, matching first = true → matching second = true →
        first = second := by
  induction list with
  | nil => simp
  | cons head tail ih =>
    obtain ⟨fresh, distinct⟩ := List.nodup_cons.mp distinct
    rw [List.reverse_cons, List.find?_append]
    by_cases found : matching head = true
    · have front : (head :: tail).find? matching = some head := List.find?_cons_of_pos found
      rw [front]
      constructor
      · intro same first left second right one two
        -- A match in the tail is found before the head from behind.
        have only (item : α) (member : item ∈ tail) : ¬ matching item = true := by
          intro matched
          cases search : tail.reverse.find? matching with
          | none =>
            rw [List.find?_eq_none] at search
            exact search item (List.mem_reverse.mpr member) matched
          | some other =>
            rw [search] at same
            obtain rfl : other = head := by simpa using same
            exact fresh (List.mem_reverse.mp (List.mem_of_find?_eq_some search))
        have isHead (item : α) (member : item ∈ head :: tail) (matched : matching item = true) :
            item = head := by
          rcases List.mem_cons.mp member with same | later
          · exact same
          · exact absurd matched (only item later)
        rw [isHead first left one, isHead second right two]
      · intro unique
        have none : tail.reverse.find? matching = none := by
          rw [List.find?_eq_none]
          intro item member matched
          have later := List.mem_reverse.mp member
          have same := unique item (List.mem_cons_of_mem _ later) head List.mem_cons_self matched
            found
          exact fresh (same ▸ later)
        simp [none, found]
    · have skipped : [head].find? matching = none := by simp [found]
      have front : (head :: tail).find? matching = tail.find? matching :=
        List.find?_cons_of_neg found
      rw [skipped, front, Option.or_none, ih distinct]
      constructor
      · intro unique first left second right one two
        have inTail (item : α) (member : item ∈ head :: tail) (matched : matching item = true) :
            item ∈ tail := by
          rcases List.mem_cons.mp member with rfl | later
          · exact absurd matched found
          · exact later
        exact unique first (inTail first left one) second (inTail second right two) one two
      · intro unique first left second right one two
        exact unique first (List.mem_cons_of_mem _ left) second (List.mem_cons_of_mem _ right)
          one two

/-- A match that is the only one is found in every order of the list. -/
theorem find?_eq_of_perm {list other : List α} (perm : list.Perm other) {matching : α → Bool}
    (unique : ∀ first ∈ list, ∀ second ∈ list, matching first = true → matching second = true →
      first = second) : list.find? matching = other.find? matching := by
  cases search : list.find? matching with
  | none =>
    symm
    rw [List.find?_eq_none] at search ⊢
    exact fun item member => search item (perm.mem_iff.mpr member)
  | some first =>
    have member := List.mem_of_find?_eq_some search
    have matched := List.find?_some search
    obtain ⟨second, found⟩ := Option.isSome_iff_exists.mp
      (List.find?_isSome.mpr ⟨first, perm.mem_iff.mp member, matched⟩)
    have listed := perm.mem_iff.mpr (List.mem_of_find?_eq_some found)
    rw [found, unique first member second listed matched (List.find?_some found)]

/-- Erasing the first match leaves no element with its key, when no key repeats. -/
theorem key_ne_of_mem_eraseP {β : Type*} {list : List α} {key : α → β}
    (distinct : (list.map key).Nodup) {matching : α → Bool} {erased other : α}
    (found : list.find? matching = some erased) (kept : other ∈ list.eraseP matching) :
    key other ≠ key erased := by
  induction list with
  | nil => simp at found
  | cons head tail ih =>
    obtain ⟨fresh, distinct⟩ := List.nodup_cons.mp distinct
    by_cases matched : matching head = true
    · rw [List.find?_cons_of_pos matched] at found
      obtain rfl := Option.some.inj found
      rw [List.eraseP_cons_of_pos matched] at kept
      intro same
      exact fresh (List.mem_map.mpr ⟨other, kept, same⟩)
    · rw [List.find?_cons_of_neg matched] at found
      rw [List.eraseP_cons_of_neg matched] at kept
      rcases List.mem_cons.mp kept with rfl | later
      · intro same
        exact fresh (List.mem_map.mpr ⟨erased, List.mem_of_find?_eq_some found, same.symm⟩)
      · exact ih distinct found later

/-- Erasing the first match leaves the elements that do not match. -/
theorem filter_not_eraseP (matching : α → Bool) (list : List α) :
    (list.eraseP matching).filter (fun other => !matching other) =
      list.filter fun other => !matching other := by
  induction list with
  | nil => rfl
  | cons head tail ih =>
    by_cases gone : matching head = true
    · rw [List.eraseP_cons_of_pos gone, List.filter_cons_of_neg (by simp [gone])]
    · rw [List.eraseP_cons_of_neg gone, List.filter_cons_of_pos (by simp [gone]),
        List.filter_cons_of_pos (by simp [gone]), ih]

/-- A match that is the only one is found, and erasing it leaves no match. -/
theorem find?_eraseP_of_unique {list : List α} (distinct : list.Nodup) {matching : α → Bool}
    (unique : ∀ first ∈ list, ∀ second ∈ list, matching first = true → matching second = true →
      first = second) {item : α} (member : item ∈ list) (matched : matching item = true) :
    list.find? matching = some item ∧
      list.eraseP matching = list.filter fun other => !matching other := by
  obtain ⟨first, found⟩ := Option.isSome_iff_exists.mp
    (List.find?_isSome.mpr ⟨item, member, matched⟩)
  have listed := List.mem_of_find?_eq_some found
  have answers := List.find?_some found
  refine ⟨by rw [found, unique first listed item member answers matched], ?_⟩
  have keys : (list.map id).Nodup := by
    rw [List.map_id]
    exact distinct
  have kept : (list.eraseP matching).filter (fun other => !matching other) =
      list.eraseP matching := by
    rw [List.filter_eq_self]
    intro other left
    have differs := key_ne_of_mem_eraseP keys found left
    rw [Bool.not_eq_true', Bool.eq_false_iff]
    exact fun also => differs
      (unique other (List.mem_of_mem_eraseP left) first listed also answers)
  rw [← kept, filter_not_eraseP]

/-- Erasing the first match of one search does not change another that shares no match. -/
theorem find?_eraseP {list : List α} {erased matching : α → Bool}
    (apart : ∀ item, erased item = true → matching item = false) :
    (list.eraseP erased).find? matching = list.find? matching := by
  induction list with
  | nil => rfl
  | cons head tail ih =>
    by_cases gone : erased head = true
    · rw [List.eraseP_cons_of_pos gone, List.find?_cons_of_neg (by simp [apart head gone])]
    · rw [List.eraseP_cons_of_neg gone]
      by_cases found : matching head = true
      · rw [List.find?_cons_of_pos found, List.find?_cons_of_pos found]
      · rw [List.find?_cons_of_neg found, List.find?_cons_of_neg found, ih]

/-! ## Taking out with the last element -/

/-- Overwrite a place with the last element and drop the last place. -/
def takeOut (list : List α) (index : Nat) : List α :=
  match list.getLast? with
  | some last => (list.set index last).dropLast
  | none => []

/-- Everything but the element at the place is left, in another order. -/
theorem takeOut_perm (front back : List α) (item : α) :
    (takeOut (front ++ item :: back) front.length).Perm (front ++ back) := by
  rcases List.eq_nil_or_concat back with rfl | ⟨before, last, rfl⟩
  · simp [takeOut]
  · have whole : front ++ item :: before.concat last = front ++ item :: before ++ [last] := by simp
    have stored : (front ++ item :: before ++ [last]).set front.length last =
        front ++ last :: before ++ [last] := by simp
    rw [takeOut, whole, List.getLast?_concat]
    dsimp only
    rw [stored, List.dropLast_concat, List.concat_eq_append, ← List.append_assoc]
    refine List.perm_middle.trans ?_
    exact (List.perm_append_singleton last (front ++ before)).symm

/-! ## Updating the first match -/

/-- A change that the search does not see is found as the change of what was found. -/
theorem find?_map_of_keeps {matching : α → Bool} {change : α → α}
    (keeps : ∀ item, matching (change item) = matching item) (list : List α) :
    (list.map change).find? matching = (list.find? matching).map change := by
  have same : matching ∘ change = matching := funext keeps
  rw [List.find?_map, same]

/-- Change the first match in place. -/
def updateFirst (matching : α → Bool) (change : α → α) : List α → List α
  | [] => []
  | head :: tail =>
    if matching head then change head :: tail else head :: updateFirst matching change tail

variable {matching : α → Bool} {change : α → α}

/-- An element after an update is an element before it or a changed match. -/
theorem mem_updateFirst {list : List α} {item : α}
    (found : item ∈ updateFirst matching change list) :
    item ∈ list ∨ ∃ first, list.find? matching = some first ∧ item = change first := by
  induction list with
  | nil => cases found
  | cons head tail ih =>
    by_cases matched : matching head = true
    · rw [updateFirst, if_pos matched] at found
      rcases List.mem_cons.mp found with changed | kept
      · exact .inr ⟨head, List.find?_cons_of_pos matched, changed⟩
      · exact .inl (List.mem_cons_of_mem _ kept)
    · rw [updateFirst, if_neg matched] at found
      rw [List.find?_cons_of_neg matched]
      rcases List.mem_cons.mp found with same | later
      · exact .inl (same ▸ List.mem_cons_self)
      · exact (ih later).imp (List.mem_cons_of_mem _) id

/-- The changed match is in the list afterwards. -/
theorem change_mem_updateFirst {list : List α} {first : α}
    (found : list.find? matching = some first) :
    change first ∈ updateFirst matching change list := by
  induction list with
  | nil => cases found
  | cons head tail ih =>
    by_cases matched : matching head = true
    · rw [List.find?_cons_of_pos matched] at found
      obtain rfl := Option.some.inj found
      rw [updateFirst, if_pos matched]
      exact List.mem_cons_self
    · rw [List.find?_cons_of_neg matched] at found
      rw [updateFirst, if_neg matched]
      exact List.mem_cons_of_mem _ (ih found)

/-- An update that changes nothing does not change the first match. -/
theorem change_eq_of_updateFirst {list : List α} {first : α}
    (found : list.find? matching = some first) (same : updateFirst matching change list = list) :
    change first = first := by
  induction list with
  | nil => cases found
  | cons head tail ih =>
    by_cases matched : matching head = true
    · rw [List.find?_cons_of_pos matched] at found
      rw [updateFirst, if_pos matched] at same
      exact Option.some.inj found ▸ (List.cons.inj same).1
    · rw [List.find?_cons_of_neg matched] at found
      rw [updateFirst, if_neg matched] at same
      exact ih found (List.cons.inj same).2

/-- An element stays as it is or changed. -/
theorem mem_updateFirst_of_mem {list : List α} {item : α} (listed : item ∈ list) :
    item ∈ updateFirst matching change list ∨ change item ∈ updateFirst matching change list := by
  induction list with
  | nil => cases listed
  | cons head tail ih =>
    rw [updateFirst]
    split
    · rcases List.mem_cons.mp listed with rfl | later
      · exact .inr List.mem_cons_self
      · exact .inl (List.mem_cons_of_mem _ later)
    · rcases List.mem_cons.mp listed with rfl | later
      · exact .inl List.mem_cons_self
      · exact (ih later).imp (List.mem_cons_of_mem _) (List.mem_cons_of_mem _)

/-- A change that leaves a key alone leaves the keys alone. -/
theorem map_updateFirst {β : Type*} {key : α → β} (keeps : ∀ item, key (change item) = key item)
    (list : List α) : (updateFirst matching change list).map key = list.map key := by
  induction list with
  | nil => rfl
  | cons head tail ih =>
    rw [updateFirst]
    split
    · rw [List.map_cons, List.map_cons, keeps]
    · rw [List.map_cons, List.map_cons, ih]

/-- When no key repeats, the update changes the element that has the key of the first match. -/
theorem updateFirst_eq_map {β : Type*} [DecidableEq β] {key : α → β} {list : List α}
    (distinct : (list.map key).Nodup) {first : α} (found : list.find? matching = some first) :
    updateFirst matching change list =
      list.map fun item => if key item = key first then change item else item := by
  induction list with
  | nil => cases found
  | cons head tail ih =>
    obtain ⟨fresh, distinct⟩ := List.nodup_cons.mp distinct
    by_cases matched : matching head = true
    · rw [List.find?_cons_of_pos matched] at found
      obtain rfl := Option.some.inj found
      have others : ∀ item ∈ tail, (if key item = key head then change item else item) = item := by
        intro item member
        refine if_neg fun same => fresh ?_
        exact same ▸ List.mem_map_of_mem member
      rw [updateFirst, if_pos matched, List.map_cons, if_pos rfl, List.map_congr_left others,
        List.map_id']
    · rw [List.find?_cons_of_neg matched] at found
      have other : key head ≠ key first := by
        intro same
        exact fresh (same ▸ List.mem_map_of_mem (List.mem_of_find?_eq_some found))
      rw [updateFirst, if_neg matched, List.map_cons, if_neg other, ih distinct found]

/-- A change that another lookup does not see leaves a field that it keeps as it is found. -/
theorem find?_map_updateFirst {β : Type*} {key : α → β} {other : α → Bool}
    (unseen : ∀ item, other (change item) = other item)
    (keeps : ∀ item, key (change item) = key item) (list : List α) :
    ((updateFirst matching change list).find? other).map key = (list.find? other).map key := by
  induction list with
  | nil => rfl
  | cons head tail ih =>
    rw [updateFirst]
    split
    · rw [List.find?_cons, List.find?_cons, unseen]
      split
      · exact congrArg some (keeps head)
      · rfl
    · rw [List.find?_cons, List.find?_cons]
      split
      · rfl
      · exact ih

/-- An update without a match changes nothing. -/
theorem updateFirst_of_none {list : List α} (missing : list.find? matching = none) :
    updateFirst matching change list = list := by
  induction list with
  | nil => rfl
  | cons head tail ih =>
    by_cases matched : matching head = true
    · rw [List.find?_cons_of_pos matched] at missing
      cases missing
    · rw [List.find?_cons_of_neg matched] at missing
      rw [updateFirst, if_neg matched, ih missing]

/-- The first match is behind a front part without matches. -/
theorem updateFirst_append {front : List α} (absent : ∀ item ∈ front, matching item = false)
    (back : List α) :
    updateFirst matching change (front ++ back) = front ++ updateFirst matching change back := by
  induction front with
  | nil => rfl
  | cons head tail ih =>
    have other : matching head = false := absent head List.mem_cons_self
    rw [List.cons_append, updateFirst, if_neg (by simp [other]),
      ih fun item found => absent item (List.mem_cons_of_mem _ found), List.cons_append]

/-- A search behind a front part without matches. -/
theorem find?_append_absent {front : List α} (absent : ∀ item ∈ front, matching item = false)
    (back : List α) : (front ++ back).find? matching = back.find? matching := by
  have missed : front.find? matching = none := by
    rw [List.find?_eq_none]
    intro item found
    simp [absent item found]
  rw [List.find?_append, missed, Option.none_or]

/-! ## What another search collects -/

/-- Changing a match does not change what a search collects that shares no match with it, before
and after the change. -/
theorem filter_updateFirst {other : α → Bool}
    (apart : ∀ item, matching item = true → other item = false ∧ other (change item) = false)
    (list : List α) : (updateFirst matching change list).filter other = list.filter other := by
  induction list with
  | nil => rfl
  | cons head tail ih =>
    rw [updateFirst]
    split
    · rename_i matched
      obtain ⟨before, after⟩ := apart head matched
      rw [List.filter_cons_of_neg (by simp [after]), List.filter_cons_of_neg (by simp [before])]
    · rw [List.filter_cons, List.filter_cons, ih]

/-- Erasing a match does not change what a search collects that shares no match with it. -/
theorem filter_eraseP {other : α → Bool}
    (apart : ∀ item, matching item = true → other item = false) (list : List α) :
    (list.eraseP matching).filter other = list.filter other := by
  induction list with
  | nil => rfl
  | cons head tail ih =>
    by_cases matched : matching head = true
    · rw [List.eraseP_cons_of_pos matched, List.filter_cons_of_neg (by simp [apart head matched])]
    · rw [List.eraseP_cons_of_neg matched, List.filter_cons, List.filter_cons, ih]

section Keyed

variable {β : Type*} {key : α → β} {wanted : β}

/-- When no key repeats, what a search for a key collects is the first match. -/
theorem filter_of_find? (keyed : ∀ item, matching item = true ↔ key item = wanted) {list : List α}
    (distinct : (list.map key).Nodup) {first : α} (found : list.find? matching = some first) :
    list.filter matching = [first] := by
  induction list with
  | nil => cases found
  | cons head tail ih =>
    obtain ⟨fresh, distinct⟩ := List.nodup_cons.mp distinct
    by_cases matched : matching head = true
    · rw [List.find?_cons_of_pos matched] at found
      obtain rfl := Option.some.inj found
      have others : tail.filter matching = [] := by
        rw [List.filter_eq_nil_iff]
        intro item member again
        have same : key item = key head :=
          ((keyed item).mp again).trans ((keyed head).mp matched).symm
        exact fresh (same ▸ List.mem_map_of_mem member)
      rw [List.filter_cons_of_pos matched, others]
    · rw [List.find?_cons_of_neg matched] at found
      rw [List.filter_cons_of_neg matched, ih distinct found]

/-- When no key repeats, changing the first match of a key leaves one match, the changed one. -/
theorem filter_updateFirst_self (keyed : ∀ item, matching item = true ↔ key item = wanted)
    (keeps : ∀ item, key (change item) = key item) {list : List α}
    (distinct : (list.map key).Nodup) {first : α} (found : list.find? matching = some first) :
    (updateFirst matching change list).filter matching = [change first] := by
  induction list with
  | nil => cases found
  | cons head tail ih =>
    by_cases matched : matching head = true
    · have alone := filter_of_find? keyed distinct found
      rw [List.find?_cons_of_pos matched] at found
      obtain rfl := Option.some.inj found
      rw [List.filter_cons_of_pos matched, List.cons.injEq] at alone
      have still : matching (change head) = true := by
        rw [keyed, keeps, ← keyed]
        exact matched
      rw [updateFirst, if_pos matched, List.filter_cons_of_pos still, alone.2]
    · rw [List.find?_cons_of_neg matched] at found
      rw [updateFirst, if_neg matched, List.filter_cons_of_neg matched,
        ih (List.nodup_cons.mp distinct).2 found]

/-- When no key repeats, erasing the first match of a key leaves no match. -/
theorem filter_eraseP_self (keyed : ∀ item, matching item = true ↔ key item = wanted)
    {list : List α} (distinct : (list.map key).Nodup) :
    (list.eraseP matching).filter matching = [] := by
  rw [List.filter_eq_nil_iff]
  intro item kept matched
  cases search : list.find? matching with
  | none =>
    have absent := List.find?_eq_none.mp search
    rw [List.eraseP_of_forall_not absent] at kept
    exact absent item kept matched
  | some first =>
    have other := key_ne_of_mem_eraseP distinct search kept
    have named := (keyed first).mp (List.find?_some search)
    exact other (((keyed item).mp matched).trans named.symm)

end Keyed

end HwrunOs.Lookup
