import Mathlib.Data.List.Basic

/-!
# Blocks of memory

An allocated block is the list of its bytes. Storing bytes within the block keeps its length, so a
length that is kept says that nothing was stored beyond the end. A block grows by doubling.
-/

namespace HwrunOs.Blocks

variable {α : Type*}

/-- Store data from an offset on: `memcpy` and `memmove` into a block. -/
def store (block : List α) (offset : Nat) (data : List α) : List α :=
  block.take offset ++ data ++ block.drop (offset + data.length)

/-- A block of a larger size that begins with the old one; `fill` is what the new memory holds. -/
def realloc (block : List α) (size : Nat) (fill : Nat → α) : List α :=
  block ++ (List.range (size - block.length)).map fill

/-- The size reached by doubling until a need is met. -/
def doubled (need size : Nat) (positive : 0 < size) : Nat :=
  if size < need then doubled need (size * 2) (by omega) else size
termination_by need - size

/-- Data stored within a block keeps its length. -/
theorem length_store {block : List α} {offset : Nat} {data : List α}
    (inside : offset + data.length ≤ block.length) :
    (store block offset data).length = block.length := by
  simp only [store, List.length_append, List.length_take, List.length_drop]
  omega

/-- The bytes before the stored ones stay. -/
theorem take_store {block : List α} {offset : Nat} {data : List α} {count : Nat}
    (before : count ≤ offset) (inside : offset ≤ block.length) :
    (store block offset data).take count = block.take count := by
  have short : count ≤ (block.take offset).length := by
    rw [List.length_take]
    omega
  rw [store, List.append_assoc, List.take_append_of_le_length short, List.take_take,
    Nat.min_eq_left before]

/-- The bytes up to the end of the stored ones. -/
theorem take_store_end {block : List α} {offset : Nat} {data : List α}
    (inside : offset ≤ block.length) :
    (store block offset data).take (offset + data.length) = block.take offset ++ data := by
  have whole : (block.take offset ++ data).length = offset + data.length := by
    rw [List.length_append, List.length_take, Nat.min_eq_left inside]
  rw [store, ← whole, List.take_left]

/-- The size of a block that grew. -/
theorem length_realloc {block : List α} {size : Nat} (larger : block.length ≤ size)
    (fill : Nat → α) : (realloc block size fill).length = size := by
  rw [realloc, List.length_append, List.length_map, List.length_range]
  omega

/-- A block that grew begins as before. -/
theorem take_realloc {block : List α} {count : Nat} (inside : count ≤ block.length) (size : Nat)
    (fill : Nat → α) : (realloc block size fill).take count = block.take count := by
  rw [realloc, List.take_append_of_le_length inside]

/-- Doubling meets the need. -/
theorem need_le_doubled (need size : Nat) (positive : 0 < size) :
    need ≤ doubled need size positive := by
  fun_induction doubled need size positive with
  | case1 size positive less ih => exact ih
  | case2 size positive enough => omega

end HwrunOs.Blocks
