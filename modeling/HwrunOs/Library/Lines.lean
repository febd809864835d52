import HwrunOs.Library.Bytes

/-!
# The lines of a text

A loop that looks for the next line feed, works on what stands in front of it and goes on behind
it sees the text from the start of every line. An unfinished last line counts when it is not
empty.
-/

namespace HwrunOs.Bytes

/-- The rest of a text behind every line feed, as long as there is one. -/
def laterStarts : CString → List CString
  | [] => []
  | byte :: rest =>
    if byte = newline ∧ rest ≠ [] then rest :: laterStarts rest else laterStarts rest

/-- The text from the start of every line. -/
def lineStarts (text : CString) : List CString :=
  if text = [] then [] else text :: laterStarts text

/-- The first line of a text. -/
def lineOf (text : CString) : CString := text.takeWhile (· != newline)

/-- The lines of a text. -/
def lines (text : CString) : List CString := (lineStarts text).map lineOf

/-- The first line ends at the line feed. -/
theorem lineOf_line {text : CString} (plain : newline ∉ text) (rest : CString) :
    lineOf (text ++ newline :: rest) = text := by
  have kept : ∀ byte ∈ text, (byte != newline) = true := by
    intro byte found
    have other : byte ≠ newline := fun same => plain (same ▸ found)
    simpa using other
  rw [lineOf, List.takeWhile_append_of_pos kept]
  simp

/-- A text without line feeds is one line. -/
theorem lineOf_last {text : CString} (plain : newline ∉ text) : lineOf text = text := by
  refine List.takeWhile_eq_self_iff.mpr fun byte found => ?_
  have other : byte ≠ newline := fun same => plain (same ▸ found)
  simpa using other

/-- A text without line feeds has no later lines. -/
theorem laterStarts_last {text : CString} (plain : newline ∉ text) : laterStarts text = [] := by
  induction text with
  | nil => rfl
  | cons byte text ih =>
    simp only [List.mem_cons, not_or] at plain
    rw [laterStarts, if_neg (fun both => plain.1 both.1.symm), ih plain.2]

/-- Nothing starts inside a line. -/
theorem laterStarts_append {text : CString} (plain : newline ∉ text) (rest : CString) :
    laterStarts (text ++ rest) = laterStarts rest := by
  induction text with
  | nil => rfl
  | cons byte text ih =>
    simp only [List.mem_cons, not_or] at plain
    rw [List.cons_append, laterStarts, if_neg (fun both => plain.1 both.1.symm), ih plain.2]

/-- Behind a line feed the lines of the rest follow. -/
theorem laterStarts_newline (rest : CString) :
    laterStarts (newline :: rest) = lineStarts rest := by
  by_cases nothing : rest = []
  · subst nothing
    rfl
  · rw [laterStarts, if_pos ⟨rfl, nothing⟩, lineStarts, if_neg nothing]

/-- The lines behind a line are the lines of the rest. -/
theorem lineStarts_line {text : CString} (plain : newline ∉ text) (rest : CString) :
    lineStarts (text ++ newline :: rest) = (text ++ newline :: rest) :: lineStarts rest := by
  have filled : text ++ newline :: rest ≠ [] := by simp
  rw [lineStarts, if_neg filled, laterStarts_append plain, laterStarts_newline]

/-- A text without line feeds is one line. -/
theorem lineStarts_last {text : CString} (plain : newline ∉ text) (filled : text ≠ []) :
    lineStarts text = [text] := by
  rw [lineStarts, if_neg filled, laterStarts_last plain]

/-- The first line, and the lines of the rest. -/
theorem lines_line {text : CString} (plain : newline ∉ text) (rest : CString) :
    lines (text ++ newline :: rest) = text :: lines rest := by
  rw [lines, lineStarts_line plain, List.map_cons, lineOf_line plain]
  rfl

/-- A text without line feeds is one line. -/
theorem lines_last {text : CString} (plain : newline ∉ text) (filled : text ≠ []) :
    lines text = [text] := by
  rw [lines, lineStarts_last plain filled, List.map_singleton, lineOf_last plain]

/-- Every text is empty, a last line, or a line with a line feed and the lines behind it. -/
@[elab_as_elim] theorem lines_induction {motive : CString → Prop} (text : CString)
    (empty : motive [])
    (last : ∀ line, newline ∉ line → line ≠ [] → motive line)
    (ended : ∀ line rest, newline ∉ line → motive rest → motive (line ++ newline :: rest)) :
    motive text := by
  induction size : text.length using Nat.strong_induction_on generalizing text with
  | _ size_ ih =>
    by_cases found : newline ∈ text
    · obtain ⟨line, rest, rfl, plain⟩ := List.eq_append_cons_of_mem found
      have shorter : rest.length < size_ := by
        rw [← size, List.length_append, List.length_cons]
        omega
      exact ended line rest plain (ih rest.length shorter rest rfl)
    · by_cases nothing : text = []
      · exact nothing ▸ empty
      · exact last text found nothing

/-- The lines of a text whose last line has no line feed behind it. -/
theorem lines_intercalate (texts : List CString)
    (plain : ∀ text ∈ texts, newline ∉ text ∧ text ≠ []) :
    lines ([newline].intercalate texts) = texts := by
  induction texts with
  | nil => rfl
  | cons text texts ih =>
    obtain ⟨clean, filled⟩ := plain text List.mem_cons_self
    have rest := ih fun other found => plain other (List.mem_cons_of_mem _ found)
    cases texts with
    | nil =>
      rw [List.intercalate_singleton]
      exact lines_last clean filled
    | cons next texts =>
      rw [List.intercalate_cons_cons, List.append_assoc, List.singleton_append,
        lines_line clean, rest]

/-- What is left of the lines in the first bytes of a text. -/
def cutLines : Nat → List CString → List CString
  | _, [] => []
  | room, text :: texts =>
    (if room = 0 then [] else [text.take room]) ++ cutLines (room - (text.length + 1)) texts

/-- The lines of the first bytes of a text that is made of lines. -/
theorem lines_take (texts : List CString) (plain : ∀ text ∈ texts, newline ∉ text ∧ text ≠ [])
    (room : Nat) : lines ((texts.flatMap (· ++ [newline])).take room) = cutLines room texts := by
  induction texts generalizing room with
  | nil => cases room <;> rfl
  | cons text texts ih =>
    obtain ⟨clean, filled⟩ := plain text List.mem_cons_self
    have later := ih (fun other found => plain other (List.mem_cons_of_mem _ found))
      (room - (text.length + 1))
    rw [List.flatMap_cons, cutLines, ← later]
    by_cases whole : text.length < room
    · have size : (text ++ [newline]).length ≤ room := by
        rw [List.length_append, List.length_singleton]
        exact whole
      rw [if_neg (by omega), List.take_of_length_le (Nat.le_of_lt whole), List.take_append,
        List.take_of_length_le size, List.append_assoc, List.singleton_append, lines_line clean,
        List.length_append, List.length_singleton, List.singleton_append]
    · have rest : room - (text.length + 1) = 0 := by omega
      rw [rest, List.take_zero, show lines [] = [] from rfl, List.append_nil, List.append_assoc,
        List.take_append_of_le_length (by omega)]
      by_cases empty : room = 0
      · rw [if_pos empty, empty, List.take_zero]
        rfl
      · rw [if_neg empty]
        apply lines_last
        · exact fun found => clean (List.mem_of_mem_take found)
        · intro nothing
          rcases List.take_eq_nil_iff.mp nothing with zero | none
          · exact empty zero
          · exact filled none

/-- A search over the starts of the lines, when it looks at one line at a time. -/
theorem findSome?_lineStarts {β : Type*} {search found : CString → Option β}
    (texts : List CString) (plain : ∀ text ∈ texts, newline ∉ text)
    (local_ : ∀ text ∈ texts, ∀ rest, search (text ++ newline :: rest) = found text) :
    (lineStarts (texts.flatMap (· ++ [newline]))).findSome? search = texts.findSome? found := by
  induction texts with
  | nil => rfl
  | cons text texts ih =>
    have rest := ih (fun other listed => plain other (List.mem_cons_of_mem _ listed))
      (fun other listed => local_ other (List.mem_cons_of_mem _ listed))
    rw [List.flatMap_cons, List.append_assoc, List.singleton_append,
      lineStarts_line (plain text List.mem_cons_self), List.findSome?_cons, List.findSome?_cons,
      local_ text List.mem_cons_self, rest]

/-- A search in which all hits agree finds their value. -/
theorem findSome?_agree {α β : Type*} {search : α → Option β} {items : List α} {item : α}
    {value : β} (listed : item ∈ items) (hit : search item = some value)
    (agree : ∀ other ∈ items, ∀ found, search other = some found → found = value) :
    items.findSome? search = some value := by
  cases result : items.findSome? search with
  | none =>
    rw [List.findSome?_eq_none_iff.mp result item listed] at hit
    cases hit
  | some found =>
    obtain ⟨other, inside, same⟩ := List.exists_of_findSome?_eq_some result
    rw [agree other inside found same]

/-! ## Lines that do not fit a buffer -/

/-- A line that fills the buffer is read in pieces. -/
theorem fgetsLines_long {cap : Nat} {text : CString} (plain : newline ∉ text) (room : 1 < cap)
    (long : cap ≤ text.length + 1) (rest : CString) :
    fgetsLines cap (text ++ rest) =
      text.take (cap - 1) :: fgetsLines cap (text.drop (cap - 1) ++ rest) := by
  have begun (text line : CString) (plain : newline ∉ text) (open_ : line.length + 1 < cap)
      (long : cap ≤ line.length + text.length + 1) :
      fgetsFrom cap line (text ++ rest) =
        (line ++ text.take (cap - 1 - line.length)) ::
          fgetsLines cap (text.drop (cap - 1 - line.length) ++ rest) := by
    induction text generalizing line with
    | nil =>
      rw [List.length_nil] at long
      omega
    | cons byte text ih =>
      simp only [List.mem_cons, not_or] at plain
      obtain ⟨left, more⟩ : ∃ left, cap - 1 - line.length = left + 1 :=
        ⟨cap - 2 - line.length, by omega⟩
      rw [List.cons_append, fgetsFrom, more, List.take_succ_cons, List.drop_succ_cons]
      by_cases full : cap ≤ (line ++ [byte]).length + 1
      · rw [List.length_append, List.length_singleton] at full
        have none : left = 0 := by omega
        rw [if_pos (.inr (by simpa using full)), none, List.take_zero, List.drop_zero, fgetsLines]
      · have shut : ¬ (byte = newline ∨ cap ≤ (line ++ [byte]).length + 1) := by
          rintro (same | filled)
          · exact plain.1 same.symm
          · exact full filled
        have longer := Nat.lt_of_not_le full
        rw [List.length_append, List.length_singleton] at longer
        rw [List.length_cons] at long
        have next : cap - 1 - (line ++ [byte]).length = left := by
          rw [List.length_append, List.length_singleton]
          omega
        rw [if_neg shut, ih (line ++ [byte]) plain.2 (by simpa using longer) (by simp; omega), next,
          List.append_assoc, List.singleton_append]
  have whole := begun text [] plain room (by simpa using long)
  simpa [fgetsLines] using whole

/-- The first line that `fgets` reads of a file of one line is what fits its buffer. -/
theorem fgetsLines_front (cap : Nat) {text : CString} (plain : newline ∉ text) (room : 1 < cap) :
    ∃ others,
      fgetsLines cap (text ++ [newline]) = (text ++ [newline]).take (cap - 1) :: others := by
  by_cases fits : text.length + 1 < cap
  · have whole : (text ++ [newline]).length ≤ cap - 1 := by
      rw [List.length_append, List.length_singleton]
      omega
    rw [List.take_of_length_le whole]
    exact ⟨_, fgetsLines_line text [] plain fits⟩
  · have part : cap - 1 ≤ text.length := by omega
    rw [List.take_append_of_le_length part]
    exact ⟨_, fgetsLines_long plain room (by omega) [newline]⟩

/-! ## Counting the lines that begin with a word -/

/-- `while ((p = strstr(p, word)) != NULL) { count++; p += strlen(word); }`. -/
def countFrom (word : CString) : Nat → CString → Nat
  | 0, _ => 0
  | fuel + 1, text =>
    match strstr word text with
    | none => 0
    | some found => countFrom word fuel (found.drop word.length) + 1

/-- How often a loop finds a word that it passes over each time. -/
def countWord (word text : CString) : Nat := countFrom word (text.length + 1) text

/-- The lines behind the first one that begin with a word. -/
def laterLines (word text : CString) : Nat := (laterStarts text).countP word.isPrefixOf

/-- A word that is not found behind a line feed begins no later line. -/
theorem laterLines_missing {word text : CString}
    (missing : strstr (newline :: word) text = none) : laterLines word text = 0 := by
  induction text with
  | nil => rfl
  | cons byte rest ih =>
    rw [strstr] at missing
    split at missing
    · cases missing
    rename_i other
    have later := ih missing
    rw [laterLines, laterStarts]
    split
    · rename_i feed
      obtain ⟨rfl, -⟩ := feed
      have begins : word.isPrefixOf rest = false := by
        rw [← Bool.not_eq_true, List.isPrefixOf_iff_prefix]
        simpa using other
      rw [List.countP_cons_of_neg (by simp [begins])]
      exact later
    · exact later

/-- A word that is found behind a line feed begins one later line, and the others come behind it. -/
theorem laterLines_found {word text found : CString} (filled : word ≠ [])
    (plain : newline ∉ word) (search : strstr (newline :: word) text = some found) :
    ∃ rest, found = newline :: (word ++ rest) ∧ found.length ≤ text.length ∧
      laterLines word text = laterLines word rest + 1 := by
  induction text with
  | nil => simp [strstr] at search
  | cons byte text ih =>
    rw [strstr] at search
    split at search
    · rename_i front
      obtain ⟨rest, whole⟩ := List.isPrefixOf_iff_prefix.mp front
      have parts : newline :: (word ++ rest) = byte :: text := whole
      obtain ⟨rfl, rfl⟩ := List.cons.inj parts
      refine ⟨rest, (Option.some.inj search).symm, ?_, ?_⟩
      · rw [← Option.some.inj search]
      · have some_ : word ++ rest ≠ [] := by simp [filled]
        have begins : word.isPrefixOf (word ++ rest) = true :=
          List.isPrefixOf_iff_prefix.mpr (List.prefix_append _ _)
        rw [laterLines, laterStarts, if_pos ⟨rfl, some_⟩, List.countP_cons_of_pos begins,
          laterStarts_append plain]
        rfl
    · rename_i other
      obtain ⟨rest, shape, shorter, later⟩ := ih search
      refine ⟨rest, shape, by simp only [List.length_cons]; omega, ?_⟩
      rw [← later, laterLines, laterStarts]
      split
      · rename_i feed
        obtain ⟨rfl, -⟩ := feed
        have begins : word.isPrefixOf text = false := by
          rw [← Bool.not_eq_true, List.isPrefixOf_iff_prefix]
          simpa using other
        rw [List.countP_cons_of_neg (by simp [begins])]
        rfl
      · rfl

/-- The loop counts the later lines that begin with a word, when it looks for the word behind a
line feed. -/
theorem countWord_newline {word : CString} (filled : word ≠ []) (plain : newline ∉ word)
    (text : CString) : countWord (newline :: word) text = laterLines word text := by
  have counted : ∀ fuel text, text.length < fuel →
      countFrom (newline :: word) fuel text = laterLines word text := by
    intro fuel
    induction fuel with
    | zero => intro text short; omega
    | succ fuel ih =>
      intro text short
      rw [countFrom]
      cases search : strstr (newline :: word) text with
      | none => exact (laterLines_missing search).symm
      | some found =>
        obtain ⟨rest, rfl, shorter, later⟩ := laterLines_found filled plain search
        have dropped : (newline :: (word ++ rest)).drop (newline :: word).length = rest := by
          simp
        have room : rest.length < fuel := by
          simp only [List.length_cons, List.length_append] at shorter
          omega
        show countFrom (newline :: word) fuel _ + 1 = _
        rw [dropped, ih rest room, later]
  exact counted _ text (Nat.lt_succ_self _)

/-! ## The lines of a text that is cut -/

variable {α : Type*}

/-- The lines of which at least `width` bytes lie in the first `seen` bytes of their text. -/
def shownLines (width : Nat) (line : α → CString) : Nat → List α → List α
  | _, [] => []
  | seen, item :: items =>
    if width ≤ seen then item :: shownLines width line (seen - ((line item).length + 1)) items
    else []

/-- Where fewer bytes are left than a line must show, no line is shown. -/
theorem shownLines_short {width seen : Nat} {line : α → CString} (short : seen < width)
    (items : List α) : shownLines width line seen items = [] := by
  cases items with
  | nil => rfl
  | cons item items => rw [shownLines, if_neg (Nat.not_le.mpr short)]

/-- The lines that are shown stand at the front. -/
theorem shownLines_front (width : Nat) (line : α → CString) (seen : Nat) (items : List α) :
    shownLines width line seen items <+: items := by
  induction items generalizing seen with
  | nil => exact List.nil_prefix
  | cons item items ih =>
    rw [shownLines]
    split
    · exact List.cons_prefix_cons.mpr ⟨rfl, ih _⟩
    · exact List.nil_prefix

/-- The first line of a cut text begins with a word when the cut leaves the word there. -/
theorem isPrefixOf_take {word text : CString} {seen : Nat} :
    word.isPrefixOf (text.take seen) = true ↔ word.length ≤ seen ∧ word.isPrefixOf text = true := by
  rw [List.isPrefixOf_iff_prefix, List.isPrefixOf_iff_prefix, List.prefix_take_iff, and_comm]

/-- A text begins with a word when its first line does. -/
theorem isPrefixOf_line {word text : CString} (plain : newline ∉ word) (rest : CString) :
    word.isPrefixOf (text ++ newline :: rest) = word.isPrefixOf text := by
  rw [Bool.eq_iff_iff, List.isPrefixOf_iff_prefix, List.isPrefixOf_iff_prefix]
  constructor
  · intro front
    by_cases short : word.length ≤ text.length
    · exact List.prefix_of_prefix_length_le front (List.prefix_append _ _) short
    · have begins : text ++ [newline] <+: text ++ newline :: rest := by simp
      have inside : text ++ [newline] <+: word :=
        List.prefix_of_prefix_length_le begins front (by simp; omega)
      exact absurd (inside.subset (by simp)) plain
  · intro front
    exact front.trans (List.prefix_append _ _)

/-- The lines that begin with a word in a text that is cut are those that show the word. -/
theorem countP_lineStarts {word : CString} (filled : word ≠ []) (plain : newline ∉ word)
    (line : α → CString) (items : List α) (clean : ∀ item ∈ items, newline ∉ line item)
    (seen : Nat) :
    (lineStarts ((items.flatMap fun item => line item ++ [newline]).take seen)).countP
        word.isPrefixOf =
      (shownLines word.length line seen items).countP fun item => word.isPrefixOf (line item) := by
  have width := List.length_pos_of_ne_nil filled
  induction items generalizing seen with
  | nil => simp [lineStarts, shownLines]
  | cons item items ih =>
    have first := clean item List.mem_cons_self
    have rest := ih fun other found => clean other (List.mem_cons_of_mem _ found)
    rw [List.flatMap_cons, List.append_assoc, List.singleton_append]
    by_cases inside : seen ≤ (line item).length
    · have none : seen - ((line item).length + 1) = 0 := by omega
      have part : newline ∉ (line item).take seen := fun found => first (List.mem_of_mem_take found)
      rw [List.take_append_of_le_length inside]
      by_cases room : word.length ≤ seen
      · have some_ : (line item).take seen ≠ [] := by
          apply List.ne_nil_of_length_pos
          rw [List.length_take]
          omega
        rw [shownLines, if_pos room, none, shownLines_short width, lineStarts_last part some_,
          List.countP_singleton, List.countP_singleton]
        have same : word.isPrefixOf ((line item).take seen) = word.isPrefixOf (line item) := by
          rw [Bool.eq_iff_iff, isPrefixOf_take, and_iff_right room]
        rw [same]
      · have cut : word.isPrefixOf ((line item).take seen) = false := by
          rw [← Bool.not_eq_true, isPrefixOf_take]
          exact fun both => room both.1
        rw [shownLines, if_neg room, lineStarts]
        split
        · rfl
        · rw [laterStarts_last part, List.countP_singleton, cut]
          rfl
    · have split : ((line item) ++ newline ::
          items.flatMap fun item => line item ++ [newline]).take seen =
          line item ++ newline :: ((items.flatMap fun item => line item ++ [newline]).take
            (seen - ((line item).length + 1))) := by
        have left : seen - (line item).length = seen - ((line item).length + 1) + 1 := by omega
        rw [List.take_append, List.take_of_length_le (by omega), left, List.take_succ_cons]
      rw [split, lineStarts_line first, List.countP_cons, rest, isPrefixOf_line plain]
      by_cases room : word.length ≤ seen
      · rw [shownLines, if_pos room, List.countP_cons]
      · have short : seen - ((line item).length + 1) < word.length := by omega
        have cut : word.isPrefixOf (line item) = false := by
          rw [← Bool.not_eq_true, List.isPrefixOf_iff_prefix]
          intro front
          have lengths := front.length_le
          omega
        rw [shownLines, if_neg room, shownLines_short short, cut]
        rfl

end HwrunOs.Bytes
