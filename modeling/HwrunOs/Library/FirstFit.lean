import Mathlib.Data.List.Nodup

/-!
# First come, first served

Items arrive one after the other, and each is given to the first place that is free and that it
fits. A place keeps what it was given. Where an item fits more places than the ones it is meant
for, whether everything ends up with its owner depends on both orders.
-/

namespace HwrunOs.FirstFit

variable {α β : Type*}

/-- The item goes to the first free place that it fits, if there is one. -/
def offer (fits : α → β → Bool) (item : β) : List (α × Option β) → List (α × Option β)
  | [] => []
  | slot :: rest =>
    if slot.2.isNone && fits slot.1 item then (slot.1, some item) :: rest
    else slot :: offer fits item rest

/-- All items are offered in their order. -/
def serve (fits : α → β → Bool) (slots : List (α × Option β)) (items : List β) :
    List (α × Option β) :=
  items.foldl (fun slots item => offer fits item slots) slots

/-- Before the first item every place is free. -/
def vacant (places : List α) : List (α × Option β) := places.map fun place => (place, none)

/-- One of the items belongs to the place. -/
def had (owns : α → β → Bool) (items : List β) (place : α) : Bool := items.any (owns place)

/-- The first place that the item fits, among those to which no earlier item belongs. -/
def next (fits owns : α → β → Bool) (places : List α) (earlier : List β) (item : β) : Option α :=
  places.find? fun place => !had owns earlier place && fits place item

/-- Every item belongs to the place it is given to, and to no other that still waits for one. -/
def Clear (fits owns : α → β → Bool) (places : List α) : List β → List β → Prop
  | _, [] => True
  | earlier, item :: rest =>
    (∀ place ∈ next fits owns places earlier item, owns place item = true) ∧
    (∀ place ∈ places, had owns earlier place = false → owns place item = true →
      next fits owns places earlier item = some place) ∧
    Clear fits owns places (earlier ++ [item]) rest

/-! ## One item -/

/-- The slot takes the item when it comes to it. -/
def takes (fits : α → β → Bool) (item : β) (slot : α × Option β) : Bool :=
  slot.2.isNone && fits slot.1 item

section

variable {fits owns : α → β → Bool} {item : β}

/-- An item that no slot takes changes nothing. -/
theorem offer_missed {slots : List (α × Option β)}
    (missed : ∀ slot ∈ slots, takes fits item slot = false) : offer fits item slots = slots := by
  induction slots with
  | nil => rfl
  | cons slot rest ih =>
    have here := missed slot List.mem_cons_self
    rw [takes] at here
    rw [offer, here, if_neg Bool.false_ne_true,
      ih fun other found => missed other (List.mem_cons_of_mem _ found)]

/-- The first slot that takes it has it then. -/
theorem offer_taken {front back : List (α × Option β)} {slot : α × Option β}
    (missed : ∀ other ∈ front, takes fits item other = false)
    (taken : takes fits item slot = true) :
    offer fits item (front ++ slot :: back) = front ++ (slot.1, some item) :: back := by
  induction front with
  | nil =>
    rw [takes] at taken
    rw [List.nil_append, offer, taken, if_pos rfl, List.nil_append]
  | cons first front ih =>
    have here := missed first List.mem_cons_self
    rw [takes] at here
    rw [List.cons_append, offer, here, if_neg Bool.false_ne_true,
      ih fun other found => missed other (List.mem_cons_of_mem _ found), List.cons_append]

/-- After an offer a slot is as before or has the item. -/
theorem mem_offer {slots : List (α × Option β)} {slot : α × Option β}
    (there : slot ∈ offer fits item slots) : slot ∈ slots ∨ slot.2 = some item := by
  induction slots with
  | nil => cases there
  | cons first rest ih =>
    rw [offer] at there
    split at there
    · rcases List.mem_cons.mp there with rfl | later
      · exact .inr rfl
      · exact .inl (List.mem_cons_of_mem _ later)
    · rcases List.mem_cons.mp there with rfl | later
      · exact .inl List.mem_cons_self
      · exact (ih later).imp_left (List.mem_cons_of_mem _)

/-- In the end a slot is as before or has one of the items. -/
theorem mem_serve {slots : List (α × Option β)} {items : List β} {slot : α × Option β}
    (there : slot ∈ serve fits slots items) :
    slot ∈ slots ∨ ∃ item ∈ items, slot.2 = some item := by
  induction items generalizing slots with
  | nil => exact .inl there
  | cons item rest ih =>
    rcases ih there with before | ⟨later, member, held⟩
    · rcases mem_offer before with old | new
      · exact .inl old
      · exact .inr ⟨item, List.mem_cons_self, new⟩
    · exact .inr ⟨later, List.mem_cons_of_mem _ member, held⟩

/-- An offer does not move the places. -/
theorem offer_places (slots : List (α × Option β)) :
    (offer fits item slots).map Prod.fst = slots.map Prod.fst := by
  induction slots with
  | nil => rfl
  | cons slot rest ih =>
    rw [offer]
    split
    · rfl
    · rw [List.map_cons, ih, List.map_cons]

/-- Neither do all offers. -/
theorem serve_places (slots : List (α × Option β)) (items : List β) :
    (serve fits slots items).map Prod.fst = slots.map Prod.fst := by
  induction items generalizing slots with
  | nil => rfl
  | cons item rest ih => exact (ih _).trans (offer_places slots)

/-- A place that has something keeps it. -/
theorem offer_kept {slots : List (α × Option β)} {slot : α × Option β} (there : slot ∈ slots)
    (filled : slot.2.isSome = true) : slot ∈ offer fits item slots := by
  induction slots with
  | nil => cases there
  | cons first rest ih =>
    rw [offer]
    split
    · rename_i taken
      rcases List.mem_cons.mp there with rfl | later
      · rw [Option.isNone_eq_false_iff.mpr filled] at taken
        cases taken
      · exact List.mem_cons_of_mem _ later
    · rcases List.mem_cons.mp there with rfl | later
      · exact List.mem_cons_self
      · exact List.mem_cons_of_mem _ (ih later)

/-- It keeps it to the end. -/
theorem serve_kept {slots : List (α × Option β)} {slot : α × Option β} (there : slot ∈ slots)
    (filled : slot.2.isSome = true) (items : List β) : slot ∈ serve fits slots items := by
  induction items generalizing slots with
  | nil => exact there
  | cons item rest ih => exact ih (offer_kept there filled)

/-! ## All items -/

/-- The slots after some items: a place has something exactly when an item belonged to it, and
what it has belongs to it. -/
structure Settled (owns : α → β → Bool) (places : List α) (slots : List (α × Option β))
    (earlier : List β) : Prop where
  /-- The places. -/
  places : slots.map Prod.fst = places
  /-- Which of them are filled. -/
  filled : ∀ slot ∈ slots, slot.2.isSome = had owns earlier slot.1
  /-- With what they are filled. -/
  own : ∀ slot ∈ slots, ∀ item ∈ slot.2, item ∈ earlier ∧ owns slot.1 item = true

/-- Before the first item. -/
theorem settled_vacant (owns : α → β → Bool) (places : List α) :
    Settled owns places (vacant places) [] where
  places := by simp [vacant, Function.comp_def]
  filled := by
    intro slot there
    obtain ⟨place, -, rfl⟩ := List.mem_map.mp there
    rfl
  own := by
    intro slot there item found
    obtain ⟨place, -, rfl⟩ := List.mem_map.mp there
    cases found

/-- One more item can belong to a place. -/
theorem had_append (earlier : List β) (item : β) (place : α) :
    had owns (earlier ++ [item]) place = (had owns earlier place || owns place item) := by
  rw [had, had, List.any_append, List.any_cons, List.any_nil, Bool.or_false]

variable {places : List α} {slots : List (α × Option β)} {earlier : List β}

/-- A slot takes the item when its place is free in the sense of the earlier items. -/
theorem Settled.takes (settled : Settled owns places slots earlier) {slot : α × Option β}
    (there : slot ∈ slots) :
    takes fits item slot = (!had owns earlier slot.1 && fits slot.1 item) := by
  rw [FirstFit.takes, ← settled.filled slot there, Option.not_isSome]

/-- Nobody takes an item for which there is no next place. -/
theorem Settled.missed (settled : Settled owns places slots earlier)
    (missing : next fits owns places earlier item = none) :
    ∀ slot ∈ slots, FirstFit.takes fits item slot = false := by
  intro slot there
  have listed : slot.1 ∈ places := settled.places ▸ List.mem_map_of_mem there
  rw [settled.takes there]
  exact Bool.eq_false_iff.mpr (List.find?_eq_none.mp missing slot.1 listed)

/-- The next place is that of the first slot that takes the item. -/
theorem Settled.next (settled : Settled owns places slots earlier) {place : α}
    (found : next fits owns places earlier item = some place) :
    ∃ front back, slots = front ++ (place, none) :: back ∧
      (∀ slot ∈ front, FirstFit.takes fits item slot = false) ∧
      FirstFit.takes fits item (place, none) = true := by
  obtain ⟨fit, before, after, whole, missed⟩ := List.find?_eq_some_iff_append.mp found
  rw [← settled.places] at whole
  obtain ⟨front, others, rfl, rfl, tail⟩ := List.map_eq_append_iff.mp whole
  obtain ⟨slot, back, rfl, rfl, rfl⟩ := List.map_eq_cons_iff.mp tail
  have member : slot ∈ front ++ slot :: back := by simp
  have taken : FirstFit.takes fits item slot = true := by
    rw [settled.takes member]
    exact fit
  have free : slot.2 = none := by
    rw [FirstFit.takes, Bool.and_eq_true, Option.isNone_iff_eq_none] at taken
    exact taken.1
  have same : slot = (slot.1, none) := Prod.ext rfl free
  refine ⟨front, back, by rw [← same], ?_, by rwa [← same]⟩
  intro other there
  rw [settled.takes (List.mem_append_left _ there)]
  have passed := missed other.1 (List.mem_map_of_mem there)
  exact Bool.eq_false_iff.mpr fun fit => by simpa [fit] using passed

/-- An item that belongs to the next place, and to no other one that waits, leaves the slots
settled. -/
theorem Settled.offer (settled : Settled owns places slots earlier) (distinct : places.Nodup)
    (owner : ∀ place ∈ FirstFit.next fits owns places earlier item, owns place item = true)
    (only : ∀ place ∈ places, had owns earlier place = false → owns place item = true →
      FirstFit.next fits owns places earlier item = some place) :
    Settled owns places (offer fits item slots) (earlier ++ [item]) := by
  -- A slot that keeps what it has is filled as before.
  have kept {slot : α × Option β} (there : slot ∈ slots)
      (waits : had owns earlier slot.1 = false → owns slot.1 item = false) :
      slot.2.isSome = had owns (earlier ++ [item]) slot.1 := by
    rw [had_append, settled.filled slot there]
    cases known : had owns earlier slot.1 with
    | true => rfl
    | false => rw [waits known, Bool.or_false]
  have owned {slot : α × Option β} (there : slot ∈ slots) :
      ∀ held ∈ slot.2, held ∈ earlier ++ [item] ∧ owns slot.1 held = true := by
    intro held found
    obtain ⟨member, own⟩ := settled.own slot there held found
    exact ⟨List.mem_append_left _ member, own⟩
  cases found : FirstFit.next fits owns places earlier item with
  | none =>
    rw [offer_missed (settled.missed found)]
    refine ⟨settled.places, ?_, fun slot there => owned there⟩
    intro slot there
    apply kept there
    intro waiting
    by_contra mine
    have listed : slot.1 ∈ places := settled.places ▸ List.mem_map_of_mem there
    have chosen := only slot.1 listed waiting (by simpa using mine)
    rw [found] at chosen
    cases chosen
  | some place =>
    obtain ⟨front, back, rfl, missed, taken⟩ := settled.next found
    have own := owner place found
    have names := settled.places
    rw [List.map_append, List.map_cons] at names
    rw [← names, List.nodup_middle, List.nodup_cons, ← List.map_append] at distinct
    have other {slot : α × Option β} (there : slot ∈ front ++ back) :
        had owns earlier slot.1 = false → owns slot.1 item = false := by
      intro waiting
      by_contra mine
      have member : slot ∈ front ++ (place, none) :: back :=
        List.mem_append.mpr ((List.mem_append.mp there).imp_right (List.mem_cons_of_mem _))
      have listed : slot.1 ∈ places := settled.places ▸ List.mem_map_of_mem member
      have chosen := only slot.1 listed waiting (by simpa using mine)
      rw [found] at chosen
      have same : place = slot.1 := Option.some.inj chosen
      have again : slot.1 ∈ (front ++ back).map Prod.fst := List.mem_map_of_mem there
      exact distinct.1 (same ▸ again)
    rw [offer_taken missed taken]
    have split (slot : α × Option β) (there : slot ∈ front ++ (place, some item) :: back) :
        slot = (place, some item) ∨ slot ∈ front ++ back := by
      rw [List.mem_append, List.mem_cons] at there
      rw [List.mem_append]
      tauto
    have before {slot : α × Option β} (there : slot ∈ front ++ back) :
        slot ∈ front ++ (place, none) :: back :=
      List.mem_append.mpr ((List.mem_append.mp there).imp_right (List.mem_cons_of_mem _))
    refine ⟨by rw [List.map_append, List.map_cons, names], ?_, ?_⟩
    · intro slot there
      rcases split slot there with rfl | old
      · rw [had_append, own, Bool.or_true]
        rfl
      · exact kept (before old) (other old)
    · intro slot there
      rcases split slot there with rfl | old
      · intro held found
        obtain rfl := Option.some.inj found
        exact ⟨List.mem_append_right _ List.mem_cons_self, own⟩
      · exact owned (before old)

/-- When what the places are given belongs to them, every item is clear, provided that an item
belongs to at most one place and fits that one. -/
theorem Settled.clear (settled : Settled owns places slots earlier) (distinct : places.Nodup)
    {items : List β}
    (single : ∀ place ∈ places, ∀ other ∈ places, ∀ item ∈ items, owns place item = true →
      owns other item = true → place = other)
    (fitting : ∀ place ∈ places, ∀ item ∈ items, owns place item = true → fits place item = true)
    (own : ∀ slot ∈ FirstFit.serve fits slots items, ∀ item ∈ slot.2, owns slot.1 item = true) :
    Clear fits owns places earlier items := by
  induction items generalizing slots earlier with
  | nil => trivial
  | cons item rest ih =>
    have owner : ∀ place ∈ FirstFit.next fits owns places earlier item,
        owns place item = true := by
      intro place found
      obtain ⟨front, back, rfl, missed, taken⟩ := settled.next found
      have given : (place, some item) ∈
          FirstFit.offer fits item (front ++ (place, none) :: back) := by
        rw [offer_taken missed taken]
        simp
      exact own _ (serve_kept given rfl rest) item rfl
    have only : ∀ place ∈ places, had owns earlier place = false → owns place item = true →
        FirstFit.next fits owns places earlier item = some place := by
      intro place listed waiting mine
      have fit : (!had owns earlier place && fits place item) = true := by
        rw [waiting, fitting place listed item List.mem_cons_self mine]
        rfl
      have some_ : (FirstFit.next fits owns places earlier item).isSome = true :=
        List.find?_isSome.mpr ⟨place, listed, fit⟩
      obtain ⟨first, found⟩ := Option.isSome_iff_exists.mp some_
      have theirs := owner first found
      have member := List.mem_of_find?_eq_some found
      have same := single first member place listed item List.mem_cons_self theirs mine
      rw [← same]
      exact found
    refine ⟨owner, only, ?_⟩
    apply ih (settled.offer distinct owner only)
    · intro place listed other known later member
      exact single place listed other known later (List.mem_cons_of_mem _ member)
    · intro place listed later member
      exact fitting place listed later (List.mem_cons_of_mem _ member)
    · exact own

end

end HwrunOs.FirstFit
