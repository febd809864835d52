import HwrunOs.Hap.Util

/-!
# The value of a key

`hap_line_value` reads the value of a key in a text of lines. The key may be set off by a blank
alone, and the loop that skips what sets the value off does not stop at the end of the line. So the
text of a later line is taken for an empty value, and a line with a longer key can be taken for the
line of the key.
-/

namespace HwrunOs.Hap

open HwrunOs.Bytes

/-! ## What is promised -/

/-- The value on a line that consists of the key, optional blanks, a colon or an equals sign, and
the value. -/
def entryValue (key line : CString) : Option CString :=
  if key.isPrefixOf line then
    match (line.drop key.length).dropWhile isSpace with
    | [] => none
    | separator :: value => if separator = 58 ∨ separator = 61 then some value else none
  else none

/-- The trimmed value of the first such line, as far as the buffer has room for it. -/
def promisedValue (config key : CString) (cap : Nat) : Option CString :=
  ((lines config).findSome? (entryValue key)).map fun value =>
    (trim isSpace isSpace value).take (cap - 1)

/-- A value is found exactly where a line has one, and it is the promised one. -/
def LineValueExact (config key : CString) (cap : Nat) : Prop :=
  hapLineValue config key cap = promisedValue config key cap

/-! ## What decides -/

/-- The first line with the key and a byte that may separate it, and the lines behind. -/
def firstKeyed (key : CString) : List CString → Option (CString × List CString)
  | [] => none
  | line :: later => if keyed key line then some (line, later) else firstKeyed key later

/-- The first line of some with a byte that is no separator, from that byte on. -/
def firstText : List CString → CString
  | [] => []
  | line :: later =>
    if line.all isSeparator then firstText later else line.dropWhile isSeparator

/-- A value is returned as it is: there is no room for any; it is blank, and no text follows; or it
does not begin with a separator, and is not cut behind a blank. -/
def Legible (room : Nat) (value : CString) (later : List CString) : Prop :=
  room = 0 ∨
    (value.all isSpace = true ∧ ∀ other ∈ later, other.all isSeparator = true) ∨
    ((∃ first ∈ (value.dropWhile isSpace).head?, isSeparator first = false) ∧
      ∀ byte ∈ ((trim isSpace isSpace value).take room).getLast?, isSpace byte = false)

/-- The first line with the key has its value, and it is returned as it is. Where this line has
none, a later one has, and the text that is read in its place is the same. -/
def Undisturbed (config key : CString) (cap : Nat) : Prop :=
  match firstKeyed key (lines config) with
  | none => True
  | some (line, later) =>
    if cap = 0 then (line :: later).findSome? (entryValue key) = none
    else
      match entryValue key line with
      | some value => Legible (cap - 1) value later
      | none => ∃ value, later.findSome? (entryValue key) = some value ∧
          ((firstText (line.drop key.length :: later)).take (cap - 1)).rdropWhile isSpace =
            (trim isSpace isSpace value).take (cap - 1)

instance (config key : CString) (cap : Nat) : Decidable (LineValueExact config key cap) :=
  inferInstanceAs (Decidable (_ = _))

/-! ## Lines and their text -/

/-- A blank may separate a key from its value. -/
theorem isSeparator_space {byte : UInt8} (space : isSpace byte = true) :
    isSeparator byte = true := by
  rw [isSeparator, space, Bool.or_true]

/-- What is read from the first byte that is no separator to the end of its line. -/
theorem firstText_lines (text : CString) :
    lineOf (text.dropWhile isSeparator) = firstText (lines text) := by
  induction text using lines_induction with
  | empty => rfl
  | last line plain filled =>
    rw [lines_last plain filled, firstText]
    by_cases all : line.all isSeparator = true
    · rw [if_pos all, List.dropWhile_eq_nil_iff.mpr (List.all_eq_true.mp all)]
      rfl
    · rw [if_neg all]
      exact lineOf_last fun found => plain ((List.dropWhile_suffix _).mem found)
  | ended line rest plain ih =>
    rw [lines_line plain, firstText]
    by_cases all : line.all isSeparator = true
    · rw [if_pos all, List.dropWhile_append_of_pos (List.all_eq_true.mp all),
        List.dropWhile_cons_of_pos (by decide), ih]
    · have filled : line.dropWhile isSeparator ≠ [] := fun nothing =>
        all (List.all_eq_true.mpr (List.dropWhile_eq_nil_iff.mp nothing))
      rw [if_neg all, List.dropWhile_append, if_neg (by simpa using filled)]
      exact lineOf_line (fun found => plain ((List.dropWhile_suffix _).mem found)) rest

/-- The text behind the key on a line with one is not empty. -/
theorem keyed_behind {key line : CString} (named : keyed key line = true) :
    line.drop key.length ≠ [] := by
  intro nothing
  rw [keyed, nothing] at named
  simp at named

/-- What is read for the value behind a key, from the lines. -/
theorem valueBehind_lines (cap : Nat) (text : CString) :
    valueBehind cap text = ((firstText (lines text)).take (cap - 1)).rdropWhile isSpace := by
  rw [valueBehind, firstText_lines]

/-- The value is looked for on the first line with the key, behind it, and on the lines behind. -/
theorem hapLineValue_lines (config key : CString) {cap : Nat} (room : cap ≠ 0) :
    hapLineValue config key cap = (firstKeyed key (lines config)).map fun found =>
      ((firstText (found.1.drop key.length :: found.2)).take (cap - 1)).rdropWhile isSpace := by
  rw [hapLineValue, if_neg room]
  induction config using lines_induction with
  | empty => rfl
  | last line plain filled =>
    have none_ : ∀ byte ∈ ([] : CString).head?, byte = newline := by simp
    have found := lineValue_line key cap plain none_
    rw [List.append_nil, List.append_nil] at found
    rw [lineStarts_last plain filled, lines_last plain filled, List.findSome?_singleton, found,
      firstKeyed]
    by_cases named : keyed key line = true
    · have behind : newline ∉ line.drop key.length := fun inside =>
        plain (List.mem_of_mem_drop inside)
      rw [if_pos named, if_pos named, valueBehind_lines, lines_last behind (keyed_behind named)]
      rfl
    · rw [if_neg named, if_neg named]
      rfl
  | ended line rest plain ih =>
    have feed : ∀ byte ∈ (newline :: rest).head?, byte = newline := by simp
    have found := lineValue_line key cap plain feed
    rw [lineStarts_line plain, lines_line plain, List.findSome?_cons, found, firstKeyed]
    by_cases named : keyed key line = true
    · have behind : newline ∉ line.drop key.length := fun inside =>
        plain (List.mem_of_mem_drop inside)
      rw [if_pos named, if_pos named, valueBehind_lines, lines_line behind]
      rfl
    · rw [if_neg named, if_neg named]
      exact ih

/-! ## Lines with a value -/

/-- A line has a value when it consists of the key, blanks, a colon or an equals sign, and it. -/
theorem entryValue_eq_some_iff {key line value : CString} :
    entryValue key line = some value ↔ ∃ blanks separator,
      (∀ byte ∈ blanks, isSpace byte = true) ∧ (separator = 58 ∨ separator = 61) ∧
        line = key ++ (blanks ++ separator :: value) := by
  have solid {separator : UInt8} (sets : separator = 58 ∨ separator = 61) :
      isSpace separator = false := by
    rcases sets with rfl | rfl <;> decide
  rw [entryValue]
  constructor
  · intro found
    split at found
    · rename_i begins
      obtain ⟨behind, rfl⟩ := List.isPrefixOf_iff_prefix.mp begins
      rw [List.drop_left] at found
      split at found
      · cases found
      · rename_i separator rest shape
        split at found
        · rename_i sets
          obtain rfl := Option.some.inj found
          refine ⟨behind.takeWhile isSpace, separator, fun byte => List.mem_takeWhile_imp, sets, ?_⟩
          rw [← shape, List.takeWhile_append_dropWhile]
        · cases found
    · cases found
  · rintro ⟨blanks, separator, spaces, sets, rfl⟩
    have begins : key.isPrefixOf (key ++ (blanks ++ separator :: value)) = true :=
      List.isPrefixOf_iff_prefix.mpr (List.prefix_append _ _)
    rw [if_pos begins, List.drop_left, List.dropWhile_append_of_pos spaces,
      List.dropWhile_cons_of_neg (by simp [solid sets])]
    exact if_pos sets

/-- A line with a value has the key and a separator. -/
theorem keyed_of_entry {key line value : CString} (entry : entryValue key line = some value) :
    keyed key line = true := by
  obtain ⟨blanks, separator, spaces, sets, rfl⟩ := entryValue_eq_some_iff.mp entry
  rw [keyed, List.drop_left, Bool.and_eq_true, List.isPrefixOf_iff_prefix]
  refine ⟨List.prefix_append _ _, ?_⟩
  cases blanks with
  | nil => rcases sets with rfl | rfl <;> rfl
  | cons byte blanks =>
    have space := spaces byte List.mem_cons_self
    exact isSeparator_space space

/-- Where no line has the key and a separator, no line has a value. -/
theorem findSome?_entryValue_none {key : CString} {texts : List CString}
    (none_ : firstKeyed key texts = none) : texts.findSome? (entryValue key) = none := by
  induction texts with
  | nil => rfl
  | cons line texts ih =>
    rw [firstKeyed] at none_
    split at none_
    · cases none_
    · rename_i other
      cases entry : entryValue key line with
      | some value => exact absurd (keyed_of_entry entry) other
      | none => rw [List.findSome?_cons, entry, ih none_]

/-- The first line with the key and a separator is the first that can have a value. -/
theorem findSome?_entryValue_some {key line : CString} {texts later : List CString}
    (first : firstKeyed key texts = some (line, later)) : keyed key line = true ∧
      texts.findSome? (entryValue key) = (line :: later).findSome? (entryValue key) := by
  induction texts with
  | nil => cases first
  | cons text texts ih =>
    rw [firstKeyed] at first
    split at first
    · rename_i named
      obtain ⟨rfl, rfl⟩ := Prod.mk.inj (Option.some.inj first)
      exact ⟨named, rfl⟩
    · rename_i other
      obtain ⟨named, same⟩ := ih first
      cases entry : entryValue key text with
      | some value => exact absurd (keyed_of_entry entry) other
      | none => exact ⟨named, by rw [List.findSome?_cons, entry, same]⟩

/-! ## What is read for a value -/

/-- Separators in front of a line are passed over. -/
theorem firstText_append {front : CString} (separators : ∀ byte ∈ front, isSeparator byte = true)
    (text : CString) (later : List CString) :
    firstText ((front ++ text) :: later) = firstText (text :: later) := by
  rw [firstText, firstText, List.all_append, List.all_eq_true.mpr separators, Bool.true_and,
    List.dropWhile_append_of_pos separators]

/-- The text that is read does not begin with a separator. -/
theorem firstText_head (texts : List CString) :
    ∀ byte ∈ (firstText texts).head?, isSeparator byte = false := by
  induction texts with
  | nil => intro byte head; cases head
  | cons text texts ih =>
    rw [firstText]
    split
    · exact ih
    · intro byte head
      have stopped := List.head?_dropWhile_not isSeparator text
      rw [Option.mem_def] at head
      rw [head] at stopped
      simpa using stopped

/-- No text is read where all lines consist of separators. -/
theorem firstText_eq_nil_iff (texts : List CString) :
    firstText texts = [] ↔ ∀ text ∈ texts, text.all isSeparator = true := by
  induction texts with
  | nil => simp [firstText]
  | cons text texts ih =>
    rw [firstText, List.forall_mem_cons]
    split
    · rename_i all
      rw [ih, and_iff_right all]
    · rename_i some_
      rw [List.dropWhile_eq_nil_iff, ← List.all_eq_true]
      exact ⟨fun all => absurd all some_, fun all => absurd all.1 some_⟩

/-- A text that is cut is trimmed at the back as if it had been trimmed before. -/
theorem take_rdropWhile (drop : UInt8 → Bool) (room : Nat) (text : CString) :
    (text.take room).rdropWhile drop = ((text.rdropWhile drop).take room).rdropWhile drop := by
  have whole : text.rdropWhile drop ++ text.rtakeWhile drop = text :=
    List.rdropWhile_append_rtakeWhile
  by_cases inside : room ≤ (text.rdropWhile drop).length
  · conv_lhs => rw [← whole, List.take_append_of_le_length inside]
  · have long : (text.rdropWhile drop).length ≤ room := Nat.le_of_not_le inside
    have gone : ((text.rtakeWhile drop).take (room - (text.rdropWhile drop).length)).rdropWhile
        drop = [] :=
      List.rdropWhile_eq_nil_iff.mpr fun byte found =>
        List.mem_rtakeWhile_imp (List.mem_of_mem_take found)
    conv_lhs => rw [← whole, List.take_append, List.take_of_length_le long]
    rw [rdropWhile_append (rdropWhile_rdropWhile drop text), gone, List.append_nil,
      List.take_of_length_le long, rdropWhile_rdropWhile]

/-- A text that does not end with a blank is not trimmed at the back, and no other. -/
theorem rdropWhile_eq_self_iff_last {text : CString} :
    text.rdropWhile isSpace = text ↔ ∀ byte ∈ text.getLast?, isSpace byte = false := by
  rw [List.rdropWhile_eq_self_iff]
  constructor
  · intro solid byte last
    obtain ⟨filled, rfl⟩ := List.mem_getLast?_eq_getLast last
    simpa using solid filled
  · intro solid filled
    simpa using solid _ (List.getLast?_eq_some_getLast filled)

/-- A byte that is no separator is no blank. -/
theorem solid_of_other {byte : UInt8} (other : isSeparator byte = false) : isSpace byte = false := by
  rw [isSeparator, Bool.or_eq_false_iff] at other
  exact other.2

/-- Something is left of a text that begins with a byte other than a blank. -/
theorem shown_cons {room : Nat} (some_ : room ≠ 0) {first : UInt8} (solid : isSpace first = false)
    (rest : CString) : ((first :: rest).take room).rdropWhile isSpace =
      first :: (rest.take (room - 1)).rdropWhile isSpace := by
  obtain ⟨left, rfl⟩ := Nat.exists_eq_succ_of_ne_zero some_
  have kept : [first].rdropWhile isSpace = [first] := rdropWhile_solid [] solid
  exact rdropWhile_append kept (rest.take left)

/-- A blank value is read as it is when no text follows. -/
theorem legible_blank {room : Nat} (some_ : room ≠ 0) {value : CString}
    (blank : value.dropWhile isSpace = []) (later : List CString) :
    ((firstText (value :: later)).take room).rdropWhile isSpace =
      (trim isSpace isSpace value).take room ↔ Legible room value later := by
  have spaces : ∀ byte ∈ value, isSpace byte = true := List.dropWhile_eq_nil_iff.mp blank
  have separators : value.all isSeparator = true :=
    List.all_eq_true.mpr fun byte found => isSeparator_space (spaces byte found)
  have behind : firstText (value :: later) = firstText later := by rw [firstText, if_pos separators]
  have empty : trim isSpace isSpace value = [] := by
    rw [trim, blank]
    rfl
  have read : ((firstText later).take room).rdropWhile isSpace = [] ↔ firstText later = [] := by
    cases shape : firstText later with
    | nil => simp
    | cons first rest =>
      have solid := solid_of_other (firstText_head later first (by rw [shape]; rfl))
      rw [shown_cons some_ solid]
      simp
  rw [behind, empty, List.take_nil, read, firstText_eq_nil_iff, Legible, blank]
  simp [some_, List.all_eq_true.mpr spaces]

/-- What is read for a value is the promised one exactly when the value is legible. -/
theorem legible_iff (room : Nat) (value : CString) (later : List CString) :
    ((firstText (value :: later)).take room).rdropWhile isSpace =
      (trim isSpace isSpace value).take room ↔ Legible room value later := by
  by_cases none_ : room = 0
  · subst none_
    exact ⟨fun _ => .inl rfl, fun _ => rfl⟩
  cases shape : value.dropWhile isSpace with
  | nil => exact legible_blank none_ shape later
  | cons first rest =>
    have solid : isSpace first = false := by
      have stopped := List.head?_dropWhile_not isSpace value
      rw [shape] at stopped
      simpa using stopped
    have filled : ¬ value.all isSpace = true := fun all => by
      rw [List.dropWhile_eq_nil_iff.mpr (List.all_eq_true.mp all)] at shape
      cases shape
    have core : trim isSpace isSpace value = first :: rest.rdropWhile isSpace := by
      have kept : [first].rdropWhile isSpace = [first] := rdropWhile_solid [] solid
      rw [trim, shape]
      exact rdropWhile_append kept rest
    rw [Legible, or_iff_right none_, or_iff_right (fun both => filled both.1), shape]
    by_cases other : isSeparator first = false
    · -- The value begins with its own text, so nothing but the cut can change it.
      have whole : value = value.takeWhile isSpace ++ first :: rest := by
        rw [← shape, List.takeWhile_append_dropWhile]
      have front : ∀ byte ∈ value.takeWhile isSpace, isSeparator byte = true := fun byte found =>
        isSeparator_space (List.mem_takeWhile_imp found)
      have text : firstText (value :: later) = first :: rest := by
        rw [whole, firstText_append front, firstText, List.all_cons, other, Bool.false_and,
          if_neg Bool.false_ne_true, List.dropWhile_cons_of_neg (by simp [other])]
      have cut : ((first :: rest).take room).rdropWhile isSpace =
          ((trim isSpace isSpace value).take room).rdropWhile isSpace := by
        rw [take_rdropWhile, trim, shape]
      rw [text, cut, rdropWhile_eq_self_iff_last, and_iff_right ⟨first, rfl, other⟩]
    · -- The value begins with a separator, which is passed over.
      constructor
      · intro same
        obtain ⟨left, rfl⟩ := Nat.exists_eq_succ_of_ne_zero none_
        have begins : ((firstText (value :: later)).take (left + 1)).rdropWhile isSpace <+:
            firstText (value :: later) :=
          (List.rdropWhile_prefix _ _).trans (List.take_prefix _ _)
        rw [same, core, List.take_succ_cons] at begins
        obtain ⟨more, shape⟩ := begins
        exact absurd (firstText_head (value :: later) first (by rw [← shape]; rfl)) other
      · rintro ⟨⟨byte, front, solid⟩, -⟩
        obtain rfl := Option.some.inj front
        exact absurd solid other

/-! ## Exactness -/

/-- `hap_line_value` keeps its promise exactly where nothing else disturbs the first value. -/
theorem lineValue_exact_iff (config key : CString) (cap : Nat) :
    LineValueExact config key cap ↔ Undisturbed config key cap := by
  rw [LineValueExact, promisedValue, Undisturbed]
  by_cases none_ : cap = 0
  · rw [hapLineValue, if_pos none_, eq_comm, Option.map_eq_none_iff]
    cases first : firstKeyed key (lines config) with
    | none => simp [findSome?_entryValue_none first]
    | some found => simp only [findSome?_entryValue_some first, if_pos none_]
  · rw [hapLineValue_lines config key none_]
    cases first : firstKeyed key (lines config) with
    | none => simp [findSome?_entryValue_none first]
    | some found =>
      obtain ⟨line, later⟩ := found
      obtain ⟨named, same⟩ := findSome?_entryValue_some first
      rw [same, List.findSome?_cons, Option.map_some]
      dsimp only
      rw [if_neg none_]
      cases entry : entryValue key line with
      | none =>
        dsimp only
        rw [eq_comm, Option.map_eq_some_iff]
        simp only [eq_comm]
      | some value =>
        obtain ⟨blanks, separator, spaces, sets, rfl⟩ := entryValue_eq_some_iff.mp entry
        dsimp only
        have front : ∀ byte ∈ blanks ++ [separator], isSeparator byte = true := by
          intro byte found
          rcases List.mem_append.mp found with blank | last
          · exact isSeparator_space (spaces byte blank)
          · obtain rfl := List.mem_singleton.mp last
            rcases sets with rfl | rfl <;> rfl
        have behind : blanks ++ separator :: value = (blanks ++ [separator]) ++ value := by simp
        rw [Option.map_some, Option.some.injEq, List.drop_left, behind, firstText_append front,
          legible_iff]

/-- An empty model name is taken from the line behind it, and a key from a line with a longer one
that goes on with a blank. -/
theorem next_line_taken :
    hapLineValue (lit "model name\t: \nstepping\t: 1\n") (lit "model name") 128 =
        some (lit "stepping\t: 1") ∧
      ¬ LineValueExact (lit "model name\t: \nstepping\t: 1\n") (lit "model name") 128 ∧
      hapLineValue (lit "model name\t: Xeon\n") (lit "model") 128 = some (lit "name\t: Xeon") ∧
      ¬ LineValueExact (lit "model name\t: Xeon\n") (lit "model") 128 := by
  decide +kernel

end HwrunOs.Hap
