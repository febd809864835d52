import HwrunOs.Param.File

/-!
# Saving and loading the parameters

The file has no quoting: what the reader takes for blanks, a separator, a comment or the end of a
line is lost or read as something else. The tree is read back exactly when no name and no value
has such a byte in such a place.
-/

namespace HwrunOs.Param

open HwrunOs.Bytes HwrunOs.Trees HwrunOs.Runs

/-! ## The exact condition -/

/-- Loading a saved tree into a fresh context gives every key the same value. -/
def RoundTrips (tree : ParamTree) : Prop :=
  ∀ key, hwParamGet (hwParamLoadFile .null (hwParamSaveFile tree)) key = hwParamGet tree key

/-- A byte that the reader skips in front of a line, takes for the start of a comment, or that
an empty first part leaves in front of a name. -/
def isNameFront (byte : UInt8) : Bool := isBlank byte || isSkipped byte || byte == dot

/-- A name that the file keeps. -/
structure PlainName (name : CString) : Prop where
  /-- It is not empty. -/
  filled : name ≠ []
  /-- It fits the buffer. -/
  short : name.length < 512
  /-- It has no colon. -/
  colon : 58 ∉ name
  /-- It has no line feed. -/
  feed : newline ∉ name
  /-- It starts with a byte that the reader does not skip. -/
  front : ∀ byte ∈ name.head?, isNameFront byte = false
  /-- It does not end in white space. -/
  back : ∀ byte ∈ name.getLast?, isSpace byte = false

/-- A value that the file keeps. -/
structure PlainValue (value : CString) : Prop where
  /-- It has no line feed. -/
  feed : newline ∉ value
  /-- It starts with neither a blank nor a quote. -/
  front : ∀ byte ∈ value.head?, isValueFront byte = false
  /-- It ends with neither white space nor a quote. -/
  back : ∀ byte ∈ value.getLast?, isValueBack byte = false

/-- Every node with a value has a name and a value that the file keeps. -/
def Plain (tree : ParamTree) : Prop :=
  ∀ path value, find path tree = some value → value ≠ [] →
    PlainName (fullName path) ∧ PlainValue value

/-! ## Texts -/

/-- A text that starts outside the class is not trimmed at the front. -/
theorem dropWhile_front {drop : UInt8 → Bool} {text : CString} :
    text.dropWhile drop = text ↔ ∀ byte ∈ text.head?, drop byte = false := by
  cases text with
  | nil => simp
  | cons byte rest =>
    by_cases dropped : drop byte = true
    · simp only [List.dropWhile_cons_of_pos dropped, List.head?_cons, Option.mem_def,
        Option.some.injEq, forall_eq', dropped, Bool.true_eq_false, iff_false]
      intro same
      have shorter := List.dropWhile_suffix drop (l := rest)
      have bound := shorter.length_le
      rw [same, List.length_cons] at bound
      omega
    · simp [List.dropWhile_cons_of_neg dropped, dropped]

/-- A text that ends outside the class is not trimmed at the back. -/
theorem rdropWhile_back {drop : UInt8 → Bool} {text : CString} :
    text.rdropWhile drop = text ↔ ∀ byte ∈ text.getLast?, drop byte = false := by
  rw [List.rdropWhile_eq_self_iff]
  constructor
  · intro kept byte last
    obtain ⟨filled, rfl⟩ := List.mem_getLast?_eq_getLast last
    simpa using kept filled
  · intro kept filled
    simp [kept _ (List.getLast_mem_getLast? filled)]

/-- A text that trimming leaves as long as it is starts and ends outside the classes. -/
theorem trim_whole {front back : UInt8 → Bool} {text : CString}
    (long : text.length ≤ (trim front back text).length) :
    (∀ byte ∈ text.head?, front byte = false) ∧ ∀ byte ∈ text.getLast?, back byte = false := by
  have behind := (List.rdropWhile_prefix back (text.dropWhile front)).length_le
  have first : text.dropWhile front = text :=
    (List.dropWhile_suffix front).eq_of_length_le (Nat.le_trans long behind)
  rw [trim, first] at long
  have last : text.rdropWhile back = text :=
    (List.rdropWhile_prefix back text).eq_of_length_le long
  exact ⟨dropWhile_front.mp first, rdropWhile_back.mp last⟩

/-- Dropping stops at a byte outside the class. -/
theorem dropWhile_append_stop {drop : UInt8 → Bool} {byte : UInt8} (front rest : CString)
    (kept : drop byte = false) :
    (front ++ byte :: rest).dropWhile drop = front.dropWhile drop ++ byte :: rest := by
  rw [List.dropWhile_append]
  split
  · rename_i gone
    rw [List.isEmpty_iff.mp gone, List.dropWhile_cons_of_neg (by simp [kept])]
    rfl
  · rfl

/-! ## Names -/

/-- A longer full name is a shorter one, a dot and a key. -/
theorem fullName_snoc {path : List CString} (filled : path ≠ []) (key : CString) :
    fullName (path ++ [key]) = fullName path ++ dot :: key := by
  unfold fullName
  induction path with
  | nil => exact absurd rfl filled
  | cons first rest ih =>
    cases rest with
    | nil => simp [List.intercalate]
    | cons second rest =>
      have later := ih (List.cons_ne_nil second rest)
      rw [List.cons_append, List.cons_append, List.intercalate_cons_cons,
        List.intercalate_cons_cons, ← List.cons_append, later, List.append_assoc,
        List.append_assoc, List.append_assoc]

/-- The full name of a node below the root is its key. -/
theorem fullName_single (key : CString) : fullName [key] = key := by
  simp [fullName, List.intercalate]

/-- A longer saved name is a shorter one with a key below it. -/
theorem savedName_snoc (path : List CString) (key : CString) :
    savedName (path ++ [key]) = belowName (savedName path) key := by
  simp [savedName]

/-- The saved name of a node below the root is its key. -/
theorem savedName_single (key : CString) : savedName [key] = snprintf 512 key := by
  simp [savedName, belowName]

/-- A saved name fits its buffer. -/
theorem savedName_short (path : List CString) : (savedName path).length < 512 := by
  induction path using List.reverseRecOn with
  | nil => decide
  | append_singleton path key _ =>
    rw [savedName_snoc, belowName]
    split
    · exact snprintf_length _ (by decide)
    · exact snprintf_length _ (by decide)

/-- A saved name holds dots and bytes of its keys. -/
theorem mem_savedName {path : List CString} {byte : UInt8} (found : byte ∈ savedName path) :
    byte = dot ∨ ∃ key ∈ path, byte ∈ key := by
  induction path using List.reverseRecOn with
  | nil => cases found
  | append_singleton path key ih =>
    have last (inside : byte ∈ key) : ∃ other ∈ path ++ [key], byte ∈ other :=
      ⟨key, by simp, inside⟩
    rw [savedName_snoc, belowName] at found
    split at found
    · have whole := (snprintf_begins _ _).mem found
      rcases List.mem_append.mp whole with front | back
      · rcases ih front with dotted | ⟨other, listed, inside⟩
        · exact .inl dotted
        · exact .inr ⟨other, List.mem_append_left _ listed, inside⟩
      · rcases List.mem_cons.mp back with dotted | inside
        · exact .inl dotted
        · exact .inr (last inside)
    · exact .inr (last ((snprintf_begins _ _).mem found))

/-- A saved name does not start with a dot. -/
theorem savedName_front {path : List CString} (keys : ∀ key ∈ path, NodeKey key) :
    ∀ byte ∈ (savedName path).head?, byte ≠ dot := by
  induction path using List.reverseRecOn with
  | nil => simp [savedName]
  | append_singleton path key ih =>
    have front := ih fun other listed => keys other (List.mem_append_left _ listed)
    have dotless : dot ∉ key := (keys key (by simp)).2
    intro byte head
    rw [savedName_snoc, belowName] at head
    split at head
    · rename_i filled
      rw [snprintf, List.head?_take, if_neg (by decide), List.head?_append_of_ne_nil _ filled]
        at head
      exact front byte head
    · rintro rfl
      exact dotless ((snprintf_begins _ _).mem (List.mem_of_mem_head? head))

/-- A saved name is no longer than the full name. -/
theorem savedName_length (path : List CString) :
    (savedName path).length ≤ (fullName path).length := by
  induction path using List.reverseRecOn with
  | nil => exact Nat.zero_le _
  | append_singleton path key ih =>
    by_cases filled : path = []
    · subst filled
      rw [List.nil_append, savedName_single, fullName_single]
      exact (snprintf_begins 512 key).length_le
    · rw [savedName_snoc, belowName, fullName_snoc filled, List.length_append, List.length_cons]
      split
      · have cut := (snprintf_begins 512 (savedName path ++ dot :: key)).length_le
        rw [List.length_append, List.length_cons] at cut
        omega
      · have cut := (snprintf_begins 512 key).length_le
        omega

/-- A saved name as long as the full name is the full name. -/
theorem savedName_whole {path : List CString}
    (long : (fullName path).length ≤ (savedName path).length) :
    savedName path = fullName path := by
  induction path using List.reverseRecOn with
  | nil => rfl
  | append_singleton path key ih =>
    by_cases filled : path = []
    · subst filled
      rw [List.nil_append, savedName_single, fullName_single] at long ⊢
      exact (snprintf_begins 512 key).eq_of_length_le long
    · have bound := savedName_length path
      rw [savedName_snoc, fullName_snoc filled] at long ⊢
      unfold belowName at long ⊢
      split at long
      · rename_i named
        have begins := snprintf_begins 512 (savedName path ++ dot :: key)
        have cut := begins.length_le
        rw [List.length_append, List.length_cons] at cut long
        have front : savedName path = fullName path := ih (by omega)
        have uncut := begins.eq_of_length_le (by
          rw [List.length_append, List.length_cons]
          omega)
        rw [if_pos named, uncut, front]
      · have cut := (snprintf_begins 512 key).length_le
        rw [List.length_append, List.length_cons] at long
        omega

/-- A full name that fits the buffer and does not start with a dot is saved whole. -/
theorem savedName_eq {path : List CString} (short : (fullName path).length < 512)
    (front : ∀ byte ∈ (fullName path).head?, byte ≠ dot) : savedName path = fullName path := by
  induction path using List.reverseRecOn with
  | nil => rfl
  | append_singleton path key ih =>
    by_cases filled : path = []
    · subst filled
      rw [List.nil_append, fullName_single] at short ⊢
      rw [savedName_single, snprintf_eq short]
    · rw [fullName_snoc filled] at short front ⊢
      have named : fullName path ≠ [] := by
        intro empty
        rw [empty] at front
        exact front dot rfl rfl
      have above : savedName path = fullName path := by
        apply ih
        · rw [List.length_append] at short
          omega
        · intro byte head
          apply front byte
          rw [List.head?_append_of_ne_nil _ named]
          exact head
      rw [savedName_snoc, belowName, above, if_pos named]
      exact snprintf_eq short

/-- A key is at least as long as the full name of the node it means. -/
theorem fullName_keyParts (key : CString) : (fullName (keyParts key)).length ≤ key.length := by
  have cut (parts : List CString) :
      (fullName (parts.map (snprintf 128))).length ≤ (fullName parts).length := by
    induction parts using List.reverseRecOn with
    | nil => exact Nat.le_refl _
    | append_singleton parts part ih =>
      have last := (snprintf_begins 128 part).length_le
      by_cases filled : parts = []
      · subst filled
        simpa [fullName_single] using last
      · have mapped : parts.map (snprintf 128) ≠ [] := by simpa using filled
        rw [List.map_append, List.map_singleton, fullName_snoc mapped, fullName_snoc filled]
        simp only [List.length_append, List.length_cons]
        omega
  calc (fullName (keyParts key)).length
      ≤ (fullName (key.splitOn dot)).length := cut _
    _ = key.length := by rw [fullName, List.intercalate_splitOn]

/-! ## One line -/

/-- The key that the reader finds in the line of a name. -/
def readName (name : CString) : CString :=
  ((name.dropWhile isBlank).takeWhile (· != 58)).rdropWhile isSpace

/-- A key read is a part of the name written. -/
theorem readName_inside (name : CString) : readName name <:+: name :=
  ((List.rdropWhile_prefix _ _).trans (List.takeWhile_prefix _)).isInfix.trans
    (List.dropWhile_suffix _).isInfix

/-- A name is read back exactly when it has no blank in front, no colon, and no white space at
its end. -/
theorem readName_eq_iff {name : CString} : readName name = name ↔
    (∀ byte ∈ name.head?, isBlank byte = false) ∧ 58 ∉ name ∧
      ∀ byte ∈ name.getLast?, isSpace byte = false := by
  have whole : name.takeWhile (· != 58) = name ↔ 58 ∉ name := by
    rw [List.takeWhile_eq_self_iff]
    constructor
    · intro kept found
      have passed := kept 58 found
      simp at passed
    · intro absent byte found
      simp only [bne_iff_ne, ne_eq]
      rintro rfl
      exact absent found
  constructor
  · intro same
    have back := (List.rdropWhile_prefix isSpace
      ((name.dropWhile isBlank).takeWhile (· != 58))).length_le
    have middle := (List.takeWhile_prefix (· != 58) (l := name.dropWhile isBlank)).length_le
    have front := (List.dropWhile_suffix isBlank (l := name)).length_le
    have total : (readName name).length = name.length := by rw [same]
    unfold readName at total
    have first : name.dropWhile isBlank = name :=
      (List.dropWhile_suffix isBlank).eq_of_length_le (by omega)
    rw [first] at total back
    have second : name.takeWhile (· != 58) = name :=
      (List.takeWhile_prefix _).eq_of_length_le (by omega)
    rw [readName, first, second] at same
    exact ⟨dropWhile_front.mp first, whole.mp second, rdropWhile_back.mp same⟩
  · rintro ⟨front, absent, back⟩
    rw [readName, dropWhile_front.mpr front, whole.mpr absent, rdropWhile_back.mpr back]

/-- Taking stops at a separator. -/
theorem takeWhile_append_stop {separator : UInt8} (front rest : CString) :
    (front ++ separator :: rest).takeWhile (· != separator) =
      front.takeWhile (· != separator) := by
  rw [List.takeWhile_append]
  split
  · rename_i all
    rw [List.takeWhile_cons_of_neg (by simp), List.append_nil]
    exact ((List.takeWhile_prefix _).eq_of_length all).symm
  · rfl

/-- The cut is at the separator of an append or before it. -/
theorem cutAt_append_stop {separator : UInt8} (front rest : CString) :
    ∃ back, cutAt separator (front ++ separator :: rest) =
      some (front.takeWhile (· != separator), back) := by
  rw [cutAt, dropWhile_append_stop _ _ (by simp), takeWhile_append_stop]
  cases front.dropWhile (· != separator) with
  | nil => exact ⟨rest, rfl⟩
  | cons byte later => exact ⟨later ++ separator :: rest, rfl⟩

/-- What the reader sees of a written line. -/
theorem savedLine_dropWhile (entry : List CString × CString) :
    (savedLine entry ++ [newline]).dropWhile isBlank =
      (savedName entry.1).dropWhile isBlank ++ 58 :: 32 :: (entry.2 ++ [newline]) := by
  have colon : lit ": " = [58, 32] := by decide
  have line : savedLine entry ++ [newline] =
      savedName entry.1 ++ 58 :: 32 :: (entry.2 ++ [newline]) := by
    simp [savedLine, colon]
  rw [line, dropWhile_append_stop _ _ (by decide)]

/-- A key of a written line is what the reader finds in its name. -/
theorem parseLine_key {entry : List CString × CString} {key value : CString}
    (parsed : parseLine (savedLine entry ++ [newline]) = some (key, value)) :
    key = readName (savedName entry.1) ∧ key ≠ [] := by
  obtain ⟨back, cut⟩ := @cutAt_append_stop 58 ((savedName entry.1).dropWhile isBlank)
    (32 :: (entry.2 ++ [newline]))
  unfold parseLine at parsed
  simp only [savedLine_dropWhile, cut, Option.some_or] at parsed
  split at parsed
  · cases parsed
  · split at parsed
    · cases parsed
    · rename_i filled
      simp only [Option.some.injEq, Prod.mk.injEq] at parsed
      obtain ⟨rfl, -⟩ := parsed
      exact ⟨rfl, filled⟩

/-- The line of a name that is read back has the name and the trimmed value. -/
theorem parseLine_exact {entry : List CString × CString} (filled : savedName entry.1 ≠ [])
    (exact : readName (savedName entry.1) = savedName entry.1) :
    parseLine (savedLine entry ++ [newline]) =
      if (savedName entry.1).head?.all isSkipped then none
      else some (savedName entry.1, trim isValueFront isValueBack entry.2) := by
  obtain ⟨front, colon, back⟩ := readName_eq_iff.mp exact
  unfold parseLine
  simp only [savedLine_dropWhile, dropWhile_front.mpr front, cutAt_append colon, Option.some_or,
    List.head?_append_of_ne_nil _ filled, rdropWhile_back.mpr back, if_neg filled]
  rw [trim_cons _ (by decide), trim_snoc _ (by decide)]

/-- The line of a plain name with a plain value is read as its node. -/
theorem lineEntry_plain {path : List CString} {value : CString} (filled : path ≠ [])
    (keys : ∀ key ∈ path, NodeKey key) (short : NodeValue value)
    (name : PlainName (fullName path)) (kept : PlainValue value) :
    lineEntry (savedLine (path, value) ++ [newline]) = some (path, value) := by
  have front : ∀ byte ∈ (fullName path).head?,
      isBlank byte = false ∧ isSkipped byte = false ∧ byte ≠ dot := by
    intro byte head
    have outside := name.front byte head
    simp only [isNameFront, Bool.or_eq_false_iff, beq_eq_false_iff_ne] at outside
    exact ⟨outside.1.1, outside.1.2, outside.2⟩
  have saved : savedName path = fullName path :=
    savedName_eq name.short fun byte head => (front byte head).2.2
  have exact : readName (savedName path) = savedName path := by
    rw [saved]
    exact readName_eq_iff.mpr ⟨fun byte head => (front byte head).1, name.colon, name.back⟩
  have begun : ¬ (savedName path).head?.all isSkipped = true := by
    rw [saved]
    cases whole : fullName path with
    | nil => exact absurd whole name.filled
    | cons byte rest => simp [(front byte (by rw [whole]; rfl)).2.1]
  have trimmed : trim isValueFront isValueBack value = value := by
    rw [trim, dropWhile_front.mpr kept.front, rdropWhile_back.mpr kept.back]
  have nonempty : savedName path ≠ [] := by
    rw [saved]
    exact name.filled
  rw [lineEntry, parseLine_exact nonempty exact, if_neg begun]
  simp [trimmed, saved, keyParts_fullName filled keys, snprintf_eq short]

/-- A node that its line is read as, under its full name, has a plain name and a plain value
apart from line feeds. -/
theorem plain_of_lineEntry {path : List CString} {value : CString}
    (keys : ∀ key ∈ path, NodeKey key) (exact : readName (savedName path) = fullName path)
    (nameFeed : newline ∉ savedName path) (valueFeed : newline ∉ value)
    (read : lineEntry (savedLine (path, value) ++ [newline]) = some (path, value)) :
    PlainName (fullName path) ∧ PlainValue value := by
  have saved : savedName path = fullName path := by
    apply savedName_whole
    rw [← exact]
    exact (readName_inside _).length_le
  have same : readName (savedName path) = savedName path := by rw [exact, saved]
  obtain ⟨⟨key, text⟩, parsed, stored⟩ := Option.map_eq_some_iff.mp read
  have filled : savedName path ≠ [] := by
    obtain ⟨found, named⟩ := parseLine_key parsed
    rw [same] at found
    rwa [found] at named
  obtain ⟨front, colon, back⟩ := readName_eq_iff.mp same
  rw [@parseLine_exact (path, value) filled same] at parsed
  split at parsed
  · cases parsed
  · rename_i begun
    simp only [Option.some.injEq, Prod.mk.injEq] at parsed stored
    obtain ⟨rfl, rfl⟩ := parsed
    have cut := (snprintf_begins 256 (trim isValueFront isValueBack value)).length_le
    rw [stored.2] at cut
    obtain ⟨valueFront, valueBack⟩ := trim_whole cut
    have bound := savedName_short path
    rw [saved] at filled bound front colon back nameFeed begun
    refine ⟨⟨filled, bound, colon, nameFeed, ?_, back⟩, ⟨valueFeed, valueFront, valueBack⟩⟩
    intro byte head
    have dotless := savedName_front keys byte (by rw [saved]; exact head)
    have shown : isSkipped byte = false := by simpa [Option.mem_def.mp head] using begun
    simp [isNameFront, front byte head, shown, dotless]

/-! ## The whole file -/

/-- A byte of a key on the way is a byte of the full name. -/
theorem mem_fullName {path : List CString} {key : CString} {byte : UInt8} (listed : key ∈ path)
    (inside : byte ∈ key) : byte ∈ fullName path := by
  induction path using List.reverseRecOn with
  | nil => cases listed
  | append_singleton path last ih =>
    by_cases filled : path = []
    · subst filled
      rw [List.nil_append, List.mem_singleton] at listed
      rw [List.nil_append, fullName_single, ← listed]
      exact inside
    · rw [fullName_snoc filled]
      rcases List.mem_append.mp listed with front | here
      · exact List.mem_append_left _ (ih front)
      · rw [List.mem_singleton] at here
        rw [← here]
        exact List.mem_append_right _ (List.mem_cons_of_mem _ inside)

/-- Nothing that is read from a line holds a line feed. -/
theorem lineEntry_feed {file line : CString} (read : line ∈ fgetsLines 1024 file)
    {path : List CString} {value : CString} (found : lineEntry line = some (path, value)) :
    (∀ key ∈ path, newline ∉ key) ∧ newline ∉ value := by
  obtain ⟨text, plain, shape⟩ := fgetsFrom_newline [] file List.not_mem_nil line read
  obtain ⟨⟨key, kept⟩, parsed, stored⟩ := Option.map_eq_some_iff.mp found
  simp only [Prod.mk.injEq] at stored
  obtain ⟨rfl, rfl⟩ := stored
  have shown := (List.dropWhile_suffix isBlank (l := line)).isInfix
  unfold parseLine at parsed
  simp only at parsed
  split at parsed
  · cases parsed
  · split at parsed
    · cases parsed
    · rename_i front back cut
      have pieces : front <:+: line ∧ back <:+: line := by
        rcases Option.or_eq_some_iff.mp cut with colon | ⟨-, equals⟩
        · exact ⟨(cutAt_front colon).isInfix.trans shown, (cutAt_suffix colon).isInfix.trans shown⟩
        · exact ⟨(cutAt_front equals).isInfix.trans shown,
            (cutAt_suffix equals).isInfix.trans shown⟩
      split at parsed
      · cases parsed
      · simp only [Option.some.injEq, Prod.mk.injEq] at parsed
        obtain ⟨rfl, rfl⟩ := parsed
        have keyFeed : newline ∉ front.rdropWhile isSpace :=
          rdropWhile_read plain shape pieces.1 (by decide)
        have valueInside := (List.dropWhile_suffix isValueFront (l := back)).isInfix.trans pieces.2
        have valueFeed : newline ∉ trim isValueFront isValueBack back :=
          rdropWhile_read plain shape valueInside (by decide)
        constructor
        · intro part listed inside
          obtain ⟨whole, among, rfl⟩ := List.mem_map.mp listed
          have joined := mem_fullName among ((snprintf_begins _ _).mem inside)
          rw [fullName, List.intercalate_splitOn] at joined
          exact keyFeed joined
        · exact fun inside => valueFeed ((snprintf_begins _ _).mem inside)

/-- Lines without line feeds are read back one by one. -/
theorem fgetsLines_saved {entries : List (List CString × CString)}
    (values : ∀ entry ∈ entries, NodeValue entry.2)
    (plain : ∀ entry ∈ entries, newline ∉ savedName entry.1 ∧ newline ∉ entry.2) :
    fgetsLines 1024 ((entries.map savedLine).flatMap (· ++ [newline])) =
      entries.map fun entry => savedLine entry ++ [newline] := by
  have separator : lit ": " = [58, 32] := by decide
  rw [fgetsLines_flatMap, List.map_map]
  · rfl
  · intro text listed
    obtain ⟨entry, among, rfl⟩ := List.mem_map.mp listed
    have name := savedName_short entry.1
    have value : entry.2.length < 256 := values entry among
    obtain ⟨nameFeed, valueFeed⟩ := plain entry among
    constructor
    · have colon : newline ∉ lit ": " := by decide
      simp only [savedLine, List.mem_append, not_or]
      exact ⟨⟨nameFeed, colon⟩, valueFeed⟩
    · simp only [savedLine, separator, List.length_append, List.length_cons, List.length_nil]
      omega

/-- The path read from a written line is that of the key the reader finds in the name. -/
theorem lineEntry_key {written node : List CString × CString}
    (read : lineEntry (savedLine written ++ [newline]) = some node) :
    node.1 = keyParts (readName (savedName written.1)) := by
  obtain ⟨⟨key, kept⟩, parsed, stored⟩ := Option.map_eq_some_iff.mp read
  rw [← stored, ← (parseLine_key parsed).1]

/-- Where every node is read from the line of some node, every line has the full name of its own
node: a line never gives a longer name than it has, and the nodes with the longest names have no
other line to come from. -/
theorem readName_exact {nodes : List (List CString × CString)}
    (keys : ∀ node ∈ nodes, node.1 ≠ [] ∧ ∀ key ∈ node.1, NodeKey key)
    (source : ∀ node ∈ nodes, ∃ other ∈ nodes,
      lineEntry (savedLine other ++ [newline]) = some node) :
    ∀ node ∈ nodes, readName (savedName node.1) = fullName node.1 := by
  have traced : ∀ node ∈ nodes, ∃ other ∈ nodes,
      (fullName node.1).length ≤ (readName (savedName other.1)).length ∧
      (readName (savedName other.1) = fullName other.1 → node.1 = other.1) := by
    intro node listed
    obtain ⟨other, among, read⟩ := source node listed
    have name := lineEntry_key read
    refine ⟨other, among, ?_, ?_⟩
    · rw [name]
      exact fullName_keyParts _
    · intro exact
      rw [name, exact, keyParts_fullName (keys other among).1 (keys other among).2]
  suffices longest : ∀ room, ∀ node ∈ nodes, 512 ≤ room + (fullName node.1).length →
      readName (savedName node.1) = fullName node.1 by
    exact fun node listed => longest 512 node listed (Nat.le_add_right _ _)
  intro room
  induction room with
  | zero =>
    intro node listed long
    obtain ⟨other, -, bound, -⟩ := traced node listed
    have shorter := (readName_inside (savedName other.1)).length_le
    have short := savedName_short other.1
    omega
  | succ room ih =>
    intro node listed long
    obtain ⟨other, among, bound, own⟩ := traced node listed
    have shorter := (readName_inside (savedName other.1)).length_le
    have saved := savedName_length other.1
    by_cases longer : (fullName node.1).length < (fullName other.1).length
    · have same := own (ih other among (by omega))
      rw [same] at longer
      exact absurd longer (Nat.lt_irrefl _)
    · have whole : readName (savedName other.1) = savedName other.1 :=
        (readName_inside _).eq_of_length_le (by omega)
      have exact : readName (savedName other.1) = fullName other.1 := by
        rw [whole]
        exact savedName_whole (by omega)
      rw [own exact, exact]

/-- A tree loaded from a file is well-formed. -/
theorem formed_load (file : CString) : Formed (hwParamLoadFile .null file) := by
  have lines (lines : List CString) (tree : ParamTree) (formed : Formed tree) :
      Formed (lines.foldl loadLine tree) := by
    induction lines generalizing tree with
    | nil => exact formed
    | cons line rest ih =>
      apply ih
      unfold loadLine
      split
      · exact formed
      · rename_i key value _
        exact formed_step formed ⟨some key, some value, fun _ => true⟩
  exact lines _ .null trivial

/-- Every path that a line gives has a key. -/
theorem lineEntry_filled {lines : List CString} :
    ∀ pair ∈ lines.filterMap lineEntry, pair.1 ≠ [] := by
  intro pair listed
  obtain ⟨line, -, found⟩ := List.mem_filterMap.mp listed
  obtain ⟨parsed, -, rfl⟩ := Option.map_eq_some_iff.mp found
  exact keyParts_ne_nil _

/-- A node with a value has a key, its keys and its value fit. -/
theorem valued_formed {tree : ParamTree} (formed : Formed tree) :
    ∀ node ∈ valued [] tree, node.1 ≠ [] ∧ (∀ key ∈ node.1, NodeKey key) ∧ NodeValue node.2 := by
  rintro ⟨path, value⟩ listed
  have among := List.mem_of_mem_filter listed
  obtain ⟨rest, rfl, found⟩ := (mem_entries formed).mp among
  refine ⟨?_, formed.find found⟩
  rintro rfl
  cases found

/-- The tree is read back exactly when every node with a value is plain. -/
theorem formed_roundTrips_iff {tree : ParamTree} (formed : Formed tree) :
    RoundTrips tree ↔ ∀ node ∈ valued [] tree, PlainName (fullName node.1) ∧ PlainValue node.2 := by
  have file : hwParamSaveFile tree = ((valued [] tree).map savedLine).flatMap (· ++ [newline]) :=
    hwParamTreeSave_eq [] tree
  have nodes := valued_formed formed
  have lookups : RoundTrips tree ↔ ∀ path,
      lookup [] path (hwParamLoadFile .null (hwParamSaveFile tree)) = lookup [] path tree :=
    hwParamGet_iff (formed_load _) formed
  rw [lookups, hwParamLoadFile_eq]
  constructor
  · intro agree
    -- A value read back was on some line.
    have written : ∀ node ∈ valued [] tree,
        ∃ line ∈ fgetsLines 1024 (hwParamSaveFile tree), lineEntry line = some node := by
      rintro ⟨path, value⟩ listed
      obtain ⟨filled, own⟩ := (mem_valued formed).mp listed
      rcases lookup_assign [] lineEntry_filled path .null with kept | ⟨other, among, assigned⟩
      · rw [agree path, own, lookup_null] at kept
        exact absurd kept filled
      · rw [agree path, own] at assigned
        rw [← assigned] at among
        exact List.mem_filterMap.mp among
    have feeds : ∀ node ∈ valued [] tree, newline ∉ savedName node.1 ∧ newline ∉ node.2 := by
      intro node listed
      obtain ⟨line, read, found⟩ := written node listed
      obtain ⟨keyFeed, valueFeed⟩ := lineEntry_feed read found
      refine ⟨?_, valueFeed⟩
      intro inside
      rcases mem_savedName inside with dotted | ⟨key, among, here⟩
      · exact absurd dotted (by decide)
      · exact keyFeed key among here
    rw [file, fgetsLines_saved (fun node listed => (nodes node listed).2.2) feeds] at written
    have source : ∀ node ∈ valued [] tree, ∃ other ∈ valued [] tree,
        lineEntry (savedLine other ++ [newline]) = some node := by
      intro node listed
      obtain ⟨line, read, found⟩ := written node listed
      obtain ⟨other, among, rfl⟩ := List.mem_map.mp read
      exact ⟨other, among, found⟩
    have exact := readName_exact
      (fun node listed => ⟨(nodes node listed).1, (nodes node listed).2.1⟩) source
    rintro ⟨path, value⟩ listed
    obtain ⟨⟨other, old⟩, among, found⟩ := source (path, value) listed
    -- The line that gives the node is its own.
    have same : path = other := by
      have key := lineEntry_key found
      rw [exact (other, old) among, keyParts_fullName (nodes _ among).1 (nodes _ among).2.1] at key
      exact key
    subst same
    have kept : old = value :=
      ((mem_valued formed).mp among).2.symm.trans ((mem_valued formed).mp listed).2
    subst kept
    obtain ⟨nameFeed, valueFeed⟩ := feeds _ listed
    exact plain_of_lineEntry (nodes _ listed).2.1 (exact _ listed) nameFeed valueFeed found
  · intro plain path
    have feeds : ∀ node ∈ valued [] tree, newline ∉ savedName node.1 ∧ newline ∉ node.2 := by
      rintro ⟨path, value⟩ listed
      obtain ⟨name, kept⟩ := plain _ listed
      have whole : savedName path = fullName path := by
        apply savedName_eq name.short
        rintro byte head rfl
        have outside := name.front dot head
        simp [isNameFront] at outside
      rw [whole]
      exact ⟨name.feed, kept.feed⟩
    have read : ∀ node ∈ valued [] tree,
        lineEntry (savedLine node ++ [newline]) = some node := by
      intro node listed
      obtain ⟨filled, keys, short⟩ := nodes node listed
      exact lineEntry_plain filled keys short (plain node listed).1 (plain node listed).2
    have assigned : (fgetsLines 1024 (hwParamSaveFile tree)).filterMap lineEntry =
        valued [] tree := by
      rw [file, fgetsLines_saved (fun node listed => (nodes node listed).2.2) feeds,
        List.filterMap_map]
      exact (List.filterMap_congr read).trans List.filterMap_some
    have filled : ∀ node ∈ valued [] tree, node.1 ≠ [] :=
      fun node listed => (nodes node listed).1
    rw [assigned]
    by_cases empty : lookup [] path tree = []
    · rcases lookup_assign [] filled path .null with kept | ⟨value, listed, same⟩
      · rw [kept, lookup_null, empty]
      · rw [same, ((mem_valued formed).mp listed).2]
    · have listed := (mem_valued formed).mpr ⟨empty, rfl⟩
      apply lookup_assign_of_mem [] filled listed
      exact fun other among => ((mem_valued formed).mp among).2.symm

/-- Saving and loading a tree gives every key the same value exactly when every node with a
value has a plain name and a plain value. -/
theorem roundTrips_iff (calls : List SetCall) :
    RoundTrips (run setValueStep .null calls) ↔ Plain (run setValueStep .null calls) := by
  have formed : Formed (run setValueStep .null calls) :=
    run_invariant Formed (fun _ call formed => formed_step formed call)
      (show Formed .null from trivial) calls
  rw [formed_roundTrips_iff formed]
  constructor
  · intro nodes path value found filled
    exact nodes (path, value) ((mem_valued formed).mpr ⟨filled, by rw [lookup, found]; rfl⟩)
  · rintro plain ⟨path, value⟩ listed
    obtain ⟨filled, own⟩ := (mem_valued formed).mp listed
    rw [lookup] at own
    cases found : find path (run setValueStep .null calls) with
    | none =>
      rw [found] at own
      exact absurd own.symm filled
    | some stored =>
      rw [found] at own
      exact plain path value (by rw [found]; exact congrArg some own) filled

/-- Witness of the defect: a value that ends in a blank is read back without it. -/
def trailingBlank : List SetCall := [⟨some (lit "net.note"), some (lit "a "), fun _ => true⟩]

/-- The trailing blank is lost. -/
theorem trailing_blank_lost :
    ¬ ∀ calls : List SetCall, RoundTrips (run setValueStep .null calls) := by
  intro claim
  have kept := claim trailingBlank (lit "net.note")
  revert kept
  decide +kernel

end HwrunOs.Param
