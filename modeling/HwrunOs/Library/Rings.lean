import Mathlib.Data.List.Basic
import Mathlib.Logic.Function.Basic

/-!
# Rings of slots

A ring keeps the last items that were written to it: a write goes to the next slot, around the
end, and over the oldest item once all slots are used. The invariant names the slot of every item
that is kept by the number of writes behind it.
-/

namespace HwrunOs.Rings

variable {α : Type*} {size : Nat}

/-- The slot behind a slot, around the end. -/
def following (slot : Fin size) : Fin size := ⟨(slot.val + 1) % size, Nat.mod_lt _ slot.pos⟩

/-- The slot that was written `back` writes before the last one, when the next write goes to
`write`. -/
def before (write : Fin size) (back : Nat) : Fin size :=
  ⟨(write.val + (size - 1 - back)) % size, Nat.mod_lt _ write.pos⟩

/-- The last write went to the slot in front of the next one. -/
theorem before_following (write : Fin size) : before (following write) 0 = write := by
  apply Fin.ext
  have inside := write.isLt
  have whole : write.val + 1 + (size - 1) = write.val + size := by omega
  show ((write.val + 1) % size + (size - 1 - 0)) % size = write.val
  rw [Nat.sub_zero, Nat.mod_add_mod, whole, Nat.add_mod_right, Nat.mod_eq_of_lt inside]

/-- One write further back is the slot of before the last write. -/
theorem before_following_succ (write : Fin size) {back : Nat} (bound : back + 1 < size) :
    before (following write) (back + 1) = before write back := by
  apply Fin.ext
  have same : write.val + 1 + (size - 1 - (back + 1)) = write.val + (size - 1 - back) := by omega
  show ((write.val + 1) % size + (size - 1 - (back + 1))) % size = _
  rw [Nat.mod_add_mod, same]
  rfl

/-- The next write leaves the items alone that stay in the ring. -/
theorem before_ne (write : Fin size) {back : Nat} (bound : back + 1 < size) :
    before write back ≠ write := by
  intro same
  have inside := write.isLt
  have value : (write.val + (size - 1 - back)) % size = write.val := congrArg Fin.val same
  by_cases around : write.val + (size - 1 - back) < size
  · rw [Nat.mod_eq_of_lt around] at value
    omega
  · rw [Nat.mod_eq_sub_mod (by omega), Nat.mod_eq_of_lt (by omega)] at value
    omega

/-- The slots hold the last items that were written, the last one in front of `write`. -/
structure Keeps (slots : Fin size → α) (write : Fin size) (count : Nat) (items : List α) :
    Prop where
  /-- As many as there are slots are kept. -/
  counted : count = min size items.length
  /-- Each of them is in the slot of its write. -/
  kept : ∀ back, back < count → items.reverse[back]? = some (slots (before write back))

/-- Nothing is kept of no writes. -/
theorem Keeps.empty (slots : Fin size → α) (write : Fin size) : Keeps slots write 0 [] where
  counted := by simp
  kept back bound := absurd bound (Nat.not_lt_zero back)

/-- A write adds an item, and takes the oldest one out of a full ring. -/
theorem Keeps.push {slots : Fin size → α} {write : Fin size} {count : Nat} {items : List α}
    (keeps : Keeps slots write count items) (item : α) :
    Keeps (Function.update slots write item) (following write)
      (if count < size then count + 1 else count) (items ++ [item]) where
  counted := by
    have counted := keeps.counted
    rw [List.length_append, List.length_singleton]
    split <;> omega
  kept back bound := by
    have counted := keeps.counted
    rw [List.reverse_append, List.reverse_singleton, List.singleton_append]
    cases back with
    | zero => rw [before_following, Function.update_self, List.getElem?_cons_zero]
    | succ back =>
      have inside : back + 1 < size := by
        split at bound <;> omega
      have earlier : back < count := by
        split at bound <;> omega
      rw [before_following_succ write inside, Function.update_of_ne (before_ne write inside),
        List.getElem?_cons_succ]
      exact keeps.kept back earlier

/-- The items that are kept, from the oldest on, are the end of all items. -/
theorem Keeps.oldest {slots : Fin size → α} {write : Fin size} {count : Nat} {items : List α}
    (keeps : Keeps slots write count items) {index : Nat} (bound : index < count) :
    (items.drop (items.length - size))[index]? =
      some (slots (before write (count - 1 - index))) := by
  have counted := keeps.counted
  have place : items.length - 1 - (count - 1 - index) = items.length - size + index := by omega
  rw [← keeps.kept _ (by omega), List.getElem?_reverse (by omega), List.getElem?_drop, place]

end HwrunOs.Rings
