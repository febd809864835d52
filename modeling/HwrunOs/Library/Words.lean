import HwrunOs.Library.Bytes

/-!
# Words

The words of a text are its longest parts without blanks. The rules below are the steps of a reader
that passes over blanks and takes one word after another.
-/

namespace HwrunOs.Words

variable {α : Type*} {blank : α → Bool}

/-- The words of a text. -/
def words (blank : α → Bool) (text : List α) : List (List α) :=
  (text.splitOnP blank).filter fun word => !word.isEmpty

/-- An empty text has no words. -/
@[simp] theorem words_nil : words blank ([] : List α) = [] := rfl

/-- A blank at the front is passed over. -/
theorem words_blank {first : α} (separates : blank first = true) (rest : List α) :
    words blank (first :: rest) = words blank rest := by
  rw [words, List.splitOnP_cons_eq_if_modifyHead, if_pos separates]
  rfl

/-- Blanks at the front are passed over. -/
theorem words_dropWhile (text : List α) :
    words blank (text.dropWhile blank) = words blank text := by
  induction text with
  | nil => rfl
  | cons first rest ih =>
    by_cases separates : blank first = true
    · rw [List.dropWhile_cons_of_pos separates, words_blank separates, ih]
    · rw [List.dropWhile_cons_of_neg separates]

/-- A text without blanks is one word. -/
theorem words_single {word : List α} (solid : ∀ item ∈ word, blank item = false)
    (filled : word ≠ []) : words blank word = [word] := by
  rw [words, List.splitOnP_eq_singleton solid]
  simp [filled]

/-- A word in front of a blank. -/
theorem words_cons {word : List α} (solid : ∀ item ∈ word, blank item = false)
    (filled : word ≠ []) {separator : α} (separates : blank separator = true) (rest : List α) :
    words blank (word ++ separator :: rest) = word :: words blank rest := by
  rw [words, List.splitOnP_append_cons_of_forall_mem solid separator separates]
  simp [filled, words]

/-- A word is taken from the front, with the blank behind it. -/
theorem words_takeWhile {first : α} (solid : blank first = false) (rest : List α) :
    words blank (first :: rest) = (first :: rest.takeWhile fun item => !blank item) ::
      words blank ((rest.dropWhile fun item => !blank item).drop 1) := by
  have clean : ∀ item ∈ first :: rest.takeWhile fun item => !blank item, blank item = false := by
    intro item listed
    rcases List.mem_cons.mp listed with rfl | inside
    · exact solid
    · simpa using List.mem_takeWhile_imp inside
  have whole : first :: rest = (first :: rest.takeWhile fun item => !blank item) ++
      rest.dropWhile fun item => !blank item := by
    rw [List.cons_append, List.takeWhile_append_dropWhile]
  cases behind : rest.dropWhile fun item => !blank item with
  | nil =>
    rw [behind, List.append_nil] at whole
    rw [List.drop_nil, words_nil, ← words_single clean (List.cons_ne_nil _ _), ← whole]
  | cons separator later =>
    have separates : blank separator = true := by
      have head := List.head?_dropWhile_not (fun item => !blank item) rest
      rw [behind] at head
      simpa using head
    rw [behind] at whole
    rw [whole, words_cons clean (List.cons_ne_nil _ _) separates]
    rfl

/-- A blank at the end is passed over. -/
theorem words_snoc {last : α} (separates : blank last = true) (text : List α) :
    words blank (text ++ [last]) = words blank text := by
  rw [words, words, List.splitOnP_append_cons text [] separates]
  simp

/-- There is at most one word more than there are blanks. -/
theorem words_length_le (text : List α) :
    (words blank text).length ≤ text.countP blank + 1 := by
  have parts : (text.splitOnP blank).length = text.countP blank + 1 := by
    induction text with
    | nil => rfl
    | cons item text ih =>
      by_cases separates : blank item = true
      · rw [List.splitOnP_cons_eq_if_modifyHead, if_pos separates, List.length_cons, ih,
          List.countP_cons_of_pos separates]
      · rw [List.splitOnP_cons_eq_if_modifyHead, if_neg separates, List.length_modifyHead, ih,
          List.countP_cons_of_neg separates]
  exact (List.length_filter_le _ _).trans_eq parts

/-- The front of a text has no more blanks behind its first ones than the text. -/
theorem countP_dropWhile_take (count : Nat) (text : List α) :
    ((text.take count).dropWhile blank).countP blank ≤ (text.dropWhile blank).countP blank := by
  induction text generalizing count with
  | nil => simp
  | cons item text ih =>
    cases count with
    | zero => simp
    | succ count =>
      rw [List.take_succ_cons]
      by_cases separates : blank item = true
      · rw [List.dropWhile_cons_of_pos separates, List.dropWhile_cons_of_pos separates]
        exact ih count
      · rw [List.dropWhile_cons_of_neg separates, List.dropWhile_cons_of_neg separates]
        exact ((List.take_sublist count text).cons_cons item).countP_le

/-- The back of a text has no more blanks behind its first ones than the text. -/
theorem countP_dropWhile_drop (count : Nat) (text : List α) :
    ((text.drop count).dropWhile blank).countP blank ≤ (text.dropWhile blank).countP blank := by
  induction text generalizing count with
  | nil => simp
  | cons item text ih =>
    cases count with
    | zero => exact Nat.le_refl _
    | succ count =>
      rw [List.drop_succ_cons]
      refine Nat.le_trans (ih count) ?_
      by_cases separates : blank item = true
      · rw [List.dropWhile_cons_of_pos separates]
      · rw [List.dropWhile_cons_of_neg separates]
        exact ((List.dropWhile_suffix blank).sublist.cons item).countP_le

end HwrunOs.Words
