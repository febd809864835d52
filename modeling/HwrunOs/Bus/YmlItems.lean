import HwrunOs.Bus.Yml

/-!
# List items of plugin.yml

The sections `provides`, `requires`, `conflicts` and `files` hold lists of items: a plain text, a
text between quotes, or a map that has a protocol among its keys. The parser looks at the line of
the dash alone, takes what is behind the first colon when there is one, and ignores the result of
`add_str` when a list is full.
-/

namespace HwrunOs.Bus

open HwrunOs.Bytes

/-! ## Items -/

/-- A text does not begin or end with a space. -/
def Solid (text : CString) : Prop :=
  ∀ byte, text.head? = some byte ∨ text.getLast? = some byte → isSpace byte = false

/-- A text without spaces. -/
theorem solid_of_all {text : CString} (all : text.all (fun byte => !isSpace byte) = true) :
    Solid text := by
  have each : ∀ byte ∈ text, isSpace byte = false := by simpa using all
  intro byte ends
  rcases ends with first | last
  · exact each byte (List.mem_of_head? first)
  · exact each byte (List.mem_of_getLast? last)

/-- A text on one line. -/
def OneLine (text : CString) : Prop := newline ∉ text ∧ (0 : UInt8) ∉ text

/-- A text without quotes. -/
structure PlainText where
  /-- The text. -/
  text : CString
  /-- It is not empty. -/
  filled : text ≠ []
  /-- It stands on one line. -/
  line : OneLine text
  /-- Spaces around it do not belong to it. -/
  solid : Solid text
  /-- It does not begin with a quote. -/
  bare : text.head? ≠ some 34 ∧ text.head? ≠ some 39
  /-- A colon in it is followed by something else than a space. -/
  joined : ∀ front back, text = front ++ 58 :: back →
    ∃ byte, back.head? = some byte ∧ isSpace byte = false

/-- The quotes. -/
inductive Quote where
  /-- Single. -/
  | single
  /-- Double. -/
  | double

/-- The byte of a quote. -/
def Quote.byte : Quote → UInt8
  | .single => 39
  | .double => 34

/-- A scalar as it is written. -/
inductive Scalar where
  /-- Without quotes. -/
  | plain (text : PlainText)
  /-- Between quotes. -/
  | quoted (quote : Quote) (text : Subtype OneLine)

/-- The bytes of a scalar. -/
def Scalar.raw : Scalar → CString
  | .plain text => text.text
  | .quoted quote text => quote.byte :: (text.1 ++ [quote.byte])

/-- The text of a scalar. -/
def Scalar.text : Scalar → CString
  | .plain text => text.text
  | .quoted _ text => text.1

/-- A scalar that is not empty. -/
abbrev Filled : Type := { scalar : Scalar // scalar.text ≠ [] }

/-- The key of a map. -/
structure YmlKey where
  /-- The key. -/
  text : CString
  /-- It is not empty. -/
  filled : text ≠ []
  /-- It stands on one line. -/
  line : OneLine text
  /-- Spaces around it do not belong to it. -/
  solid : Solid text
  /-- It does not begin an item or a comment. -/
  start : text.head? ≠ some 45 ∧ text.head? ≠ some 35
  /-- It has no colon. -/
  colon : (58 : UInt8) ∉ text

/-- A key of a map, which may have no value. -/
structure Entry where
  /-- The key. -/
  key : YmlKey
  /-- The value. -/
  value : Option Scalar

/-- The bytes of a value. -/
def Entry.raw (entry : Entry) : CString := entry.value.elim [] Scalar.raw

/-- The bytes of an entry. -/
def Entry.written (entry : Entry) : CString :=
  entry.key.text ++ 58 :: (entry.value.elim [] fun scalar => 32 :: scalar.raw)

/-- A key other than the protocol. -/
abbrev SubKey : Type := { entry : Entry // entry.key.text ≠ lit "protocol" }

/-- The key `protocol`. -/
def protocolKey : YmlKey where
  text := lit "protocol"
  filled := by decide
  line := ⟨by decide, by decide⟩
  solid := solid_of_all (by decide)
  start := ⟨by decide, by decide⟩
  colon := by decide

/-- An item of a list. -/
inductive YmlItem where
  /-- A text, with or without quotes. -/
  | scalar (value : Filled)
  /-- Two quotes with nothing between them, which stand for no item. -/
  | placeholder (quote : Quote)
  /-- A map with a protocol, and other keys before and after it. -/
  | mapping (before : List SubKey) (protocol : Filled) (after : List SubKey)

/-- The value of an item. -/
def YmlItem.value : YmlItem → Option CString
  | .scalar value => some value.1.text
  | .placeholder _ => none
  | .mapping _ protocol _ => some protocol.1.text

/-- What stands behind the dash of an item. -/
def YmlItem.first : YmlItem → CString
  | .scalar value => value.1.raw
  | .placeholder quote => [quote.byte, quote.byte]
  | .mapping [] protocol _ => (Entry.mk protocolKey (some protocol.1)).written
  | .mapping (entry :: _) _ _ => entry.1.written

/-- The keys of an item on lines of their own. -/
def YmlItem.others : YmlItem → List Entry
  | .scalar _ => []
  | .placeholder _ => []
  | .mapping [] _ after => after.map Subtype.val
  | .mapping (_ :: before) protocol after =>
    before.map Subtype.val ++ ⟨protocolKey, some protocol.1⟩ :: after.map Subtype.val

/-! ## Sections -/

/-- The sections that are lists of texts. -/
inductive ListSection where
  /-- Provided protocols. -/
  | provides
  /-- Required protocols. -/
  | requires
  /-- Conflicting protocols. -/
  | conflicts
  /-- Files. -/
  | files
  deriving DecidableEq

/-- The name of a section. -/
def ListSection.name : ListSection → CString
  | .provides => lit "provides"
  | .requires => lit "requires"
  | .conflicts => lit "conflicts"
  | .files => lit "files"

/-- The capacity of its array. -/
def ListSection.max : ListSection → Nat
  | .provides => 32
  | .requires => 32
  | .conflicts => 16
  | .files => 64

/-- Its list. -/
def ListSection.list : ListSection → PluginYml → List CString
  | .provides, yml => yml.provides
  | .requires, yml => yml.requires
  | .conflicts, yml => yml.conflicts
  | .files, yml => yml.files

/-- A section as it is written. -/
structure WrittenSection where
  /-- Which one. -/
  part : ListSection
  /-- The indentation of its name. -/
  base : Nat
  /-- The indentation of its items. -/
  indent : Nat
  /-- The indentation of further keys of an item. -/
  deeper : Nat
  /-- Its items. -/
  items : List YmlItem

/-- A text behind some spaces. -/
def indented (indent : Nat) (text : CString) : CString := List.replicate indent 32 ++ text

/-- The lines of an item. -/
def WrittenSection.itemLines (written : WrittenSection) (item : YmlItem) : List CString :=
  indented written.indent (45 :: 32 :: item.first) ::
    item.others.map fun entry => indented written.deeper entry.written

/-- The lines of a section. -/
def WrittenSection.lines (written : WrittenSection) : List CString :=
  indented written.base (written.part.name ++ [58]) ::
    written.items.flatMap written.itemLines

/-- The values of its items. -/
def WrittenSection.values (written : WrittenSection) : List CString :=
  written.items.filterMap YmlItem.value

/-- Lines as the bytes of a file. -/
def fileOf (lines : List CString) : CString := lines.flatMap (· ++ [newline])

/-- The result of `hw_yml_parse_plugin`, with what it has read: an error without a file. -/
def hwYmlParse : Option CString → Int × PluginYml
  | none => (-2, ymlStart.yml)
  | some file => (0, hwYmlParsePlugin file)

/-- A section behind some lines is collected: its list grows by the values of its items, in their
order, and no other list grows, or an error is reported because they are too many. -/
def Collected (before : List CString) (written : WrittenSection) : Prop :=
  ((hwYmlParse (some (fileOf (before ++ written.lines)))).1 = 0 ∧
    ∀ part : ListSection, part.list (hwYmlParse (some (fileOf (before ++ written.lines)))).2 =
      part.list (hwYmlParse (some (fileOf before))).2 ++
        if part = written.part then written.values else []) ∨
  ((hwYmlParse (some (fileOf (before ++ written.lines)))).1 ≠ 0 ∧
    written.part.max < (written.part.list (hwYmlParse (some (fileOf before))).2).length +
      written.values.length)

/-! ## What a line adds -/

/-- The text that an item adds to the list of its section: what is behind the first colon, if there
is one. -/
def itemText (val : CString) : Option CString :=
  let text := match cutAt 58 val with
    | some (_, proto) => unquote (trimSpace proto)
    | none => unquote (trimSpace val)
  if text = [] then none else some text

/-- The text that a line adds to the list of the section. -/
def offered (line : CString) : Option CString :=
  match (readLine line).2 with
  | .item val => itemText val
  | _ => none

/-- The section that a key with its value begins or ends. -/
def heading (key val : CString) : Option CString :=
  if val = [] then some (if key = lit "plugin" then [] else snprintf 64 key)
  else if key = lit "conflicts" ∧ val = lit "[]" then some []
  else none

/-- The section behind a line. -/
def sectionAfter (current line : CString) : CString :=
  match (readLine line).2 with
  | .pair key val => (heading key val).getD current
  | _ => current

/-- `add_str` of what a line offers. -/
def pushed (max : Nat) (list : List CString) (text : Option CString) : List CString :=
  if list.length < max then list ++ text.toList else list

/-- Trimming twice is trimming once. -/
theorem trimSpace_trimSpace (text : CString) : trimSpace (trimSpace text) = trimSpace text := by
  have solid : ((text.dropWhile isSpace).rdropWhile isSpace).dropWhile isSpace =
      (text.dropWhile isSpace).rdropWhile isSpace := by
    cases whole : (text.dropWhile isSpace).rdropWhile isSpace with
    | nil => rfl
    | cons byte rest =>
      have front := List.rdropWhile_prefix isSpace (text.dropWhile isSpace)
      rw [whole] at front
      obtain ⟨tail, same⟩ := front
      have kept : ¬ isSpace byte = true := by
        have head := List.head?_dropWhile_not isSpace text
        rw [← same] at head
        simpa using head
      rw [List.dropWhile_cons_of_neg kept]
  show (((text.dropWhile isSpace).rdropWhile isSpace).dropWhile isSpace).rdropWhile isSpace = _
  rw [solid, rdropWhile_rdropWhile]
  rfl

/-- Sections are told apart by their names. -/
theorem ListSection.name_inj {one other : ListSection} : one.name = other.name ↔ one = other := by
  constructor
  · intro same
    cases one <;> cases other <;> first | rfl | exact absurd same (by decide)
  · exact congrArg ListSection.name

/-- What is added to a section is added to its list alone. -/
theorem list_addToSection (part : ListSection) (yml : PluginYml) (current val : CString) :
    part.list (addToSection yml current val) =
      if current = part.name then addStr part.max (part.list yml) val else part.list yml := by
  by_cases named : ∃ own : ListSection, current = own.name
  · obtain ⟨own, rfl⟩ := named
    rw [if_congr ListSection.name_inj rfl rfl]
    cases own <;> cases part <;> rfl
  · have other (own : ListSection) : current ≠ own.name := fun same => named ⟨own, same⟩
    have unknown : addToSection yml current val = yml := by
      have provides : current ≠ lit "provides" := other .provides
      have requires : current ≠ lit "requires" := other .requires
      have conflicts : current ≠ lit "conflicts" := other .conflicts
      have files : current ≠ lit "files" := other .files
      rw [addToSection, if_neg provides, if_neg requires, if_neg conflicts, if_neg files]
    rw [unknown, if_neg (other part)]

/-- A text is added without its quotes, unless nothing is left or the array is full. -/
theorem addStr_eq (max : Nat) (list : List CString) (val : CString) :
    addStr max list val = pushed max list
      (if unquote (trimSpace val) = [] then none else some (unquote (trimSpace val))) := by
  unfold addStr pushed
  by_cases full : max ≤ list.length
  · rw [if_pos full, if_neg (Nat.not_lt.mpr full)]
  · rw [if_neg full, if_pos (Nat.not_le.mp full)]
    split
    · exact (List.append_nil _).symm
    · rfl

/-- What is not offered is not pushed. -/
theorem pushed_none (max : Nat) (list : List CString) : pushed max list none = list := by
  unfold pushed
  split
  · exact List.append_nil _
  · rfl

/-- What a line adds to a list, and the section behind it. -/
theorem parseLine_list (part : ListSection) (state : YmlState) (line : CString) :
    part.list (parseLine state line).yml =
        (if state.current = part.name then pushed part.max (part.list state.yml) (offered line)
        else part.list state.yml) ∧
      (parseLine state line).current = sectionAfter state.current line := by
  have idle : (if state.current = part.name then pushed part.max (part.list state.yml) none
      else part.list state.yml) = part.list state.yml := by
    rw [pushed_none]
    exact ite_self _
  unfold parseLine offered itemText sectionAfter
  cases read : readLine line with
  | mk indent content =>
    cases content with
    | blank => exact ⟨idle.symm, rfl⟩
    | text => exact ⟨idle.symm, rfl⟩
    | pair key val =>
      dsimp only
      rw [idle]
      unfold parsePair heading
      by_cases empty : val = []
      · rw [if_pos empty, if_pos empty]
        by_cases root : key = lit "plugin"
        · rw [if_pos root, if_pos root]
          exact ⟨rfl, rfl⟩
        · rw [if_neg root, if_neg root]
          exact ⟨rfl, rfl⟩
      · rw [if_neg empty, if_neg empty]
        by_cases none : key = lit "conflicts" ∧ val = lit "[]"
        · rw [if_pos none, if_pos none]
          exact ⟨rfl, rfl⟩
        · rw [if_neg none, if_neg none]
          split
          · exact ⟨rfl, rfl⟩
          · cases part <;> exact ⟨rfl, rfl⟩
    | item val =>
      dsimp only
      unfold parseItem
      by_cases blank : state.current = [] ∨ val = []
      · rw [if_pos blank]
        refine ⟨?_, rfl⟩
        rcases blank with top | empty
        · have away : state.current ≠ part.name := by
            rw [top]
            cases part <;> decide
          rw [if_neg away]
        · rw [empty]
          exact idle.symm
      · rw [if_neg blank]
        cases cut : cutAt 58 val with
        | none =>
          dsimp only
          refine ⟨?_, rfl⟩
          rw [list_addToSection, addStr_eq]
        | some parts =>
          obtain ⟨front, proto⟩ := parts
          dsimp only
          by_cases empty : trimSpace proto = []
          · have gone : unquote (trimSpace proto) = [] := by
              rw [empty]
              rfl
            rw [if_pos empty, if_pos gone]
            exact ⟨idle.symm, rfl⟩
          · rw [if_neg empty]
            refine ⟨?_, rfl⟩
            rw [list_addToSection, addStr_eq, trimSpace_trimSpace]

/-- The texts that lines add to a list, from a section on. -/
def offers (part : ListSection) : CString → List CString → List CString
  | _, [] => []
  | current, line :: rest =>
    (if current = part.name then (offered line).toList else []) ++
      offers part (sectionAfter current line) rest

/-- Lines add what they offer to a list as long as there is room. -/
theorem foldl_parseLine (part : ListSection) (lines : List CString) (state : YmlState) :
    part.list (lines.foldl parseLine state).yml = part.list state.yml ++
        (offers part state.current lines).take (part.max - (part.list state.yml).length) ∧
      (lines.foldl parseLine state).current = lines.foldl sectionAfter state.current := by
  induction lines generalizing state with
  | nil => simp [offers]
  | cons line rest ih =>
    obtain ⟨list, current⟩ := parseLine_list part state line
    rw [List.foldl_cons, List.foldl_cons, (ih _).1, (ih _).2, list, current, offers]
    refine ⟨?_, rfl⟩
    by_cases here : state.current = part.name
    · rw [if_pos here, if_pos here]
      unfold pushed
      by_cases room : (part.list state.yml).length < part.max
      · rw [if_pos room, List.append_assoc, List.length_append, List.take_append,
          List.append_cancel_left_eq]
        have few : (offered line).toList.length ≤ part.max - (part.list state.yml).length := by
          have one : (offered line).toList.length ≤ 1 := by
            cases offered line <;> simp
          omega
        rw [List.take_of_length_le few, Nat.sub_sub]
      · have full : part.max - (part.list state.yml).length = 0 := by omega
        rw [if_neg room, full, List.take_zero, List.take_zero]
    · rw [if_neg here, if_neg here, List.nil_append]

/-- What the front lines offer comes first. -/
theorem offers_append (part : ListSection) (current : CString) (front back : List CString) :
    offers part current (front ++ back) =
      offers part current front ++ offers part (front.foldl sectionAfter current) back := by
  induction front generalizing current with
  | nil => rfl
  | cons line rest ih =>
    rw [List.cons_append, offers, offers, ih, List.foldl_cons, List.append_assoc]

/-! ## Files of lines -/

/-- Behind whole lines the rest of a file is read on its own. -/
theorem fgetsLines_fileOf (cap : Nat) (before : List CString) (rest : CString) :
    fgetsLines cap (fileOf before ++ rest) =
      fgetsLines cap (fileOf before) ++ fgetsLines cap rest := by
  cases before using List.reverseRecOn with
  | nil => rfl
  | append_singleton front line =>
    have ends : fileOf (front ++ [line]) = (fileOf front ++ line) ++ [newline] := by
      simp [fileOf]
    rw [ends, List.append_assoc _ [newline] rest]
    exact fgetsFrom_append [] (fileOf front ++ line) rest

/-- The state of the parser behind some lines. -/
def stateBehind (before : List CString) : YmlState :=
  (fgetsLines 1024 (fileOf before)).foldl parseLine ymlStart

/-- A section is collected exactly when the pieces that are read of it offer its values, as far as
there is room. -/
theorem collected_iff_offers (before : List CString) (written : WrittenSection) :
    Collected before written ↔ ∀ part : ListSection,
      (offers part (stateBehind before).current (fgetsLines 1024 (fileOf written.lines))).take
          (part.max - (part.list (stateBehind before).yml).length) =
        if part = written.part then written.values else [] := by
  have file : fileOf (before ++ written.lines) = fileOf before ++ fileOf written.lines := by
    simp [fileOf]
  have parsed (part : ListSection) : part.list (hwYmlParsePlugin (fileOf (before ++ written.lines)))
      = part.list (stateBehind before).yml ++
        (offers part (stateBehind before).current (fgetsLines 1024 (fileOf written.lines))).take
          (part.max - (part.list (stateBehind before).yml).length) := by
    rw [hwYmlParsePlugin, file, fgetsLines_fileOf, List.foldl_append]
    exact (foldl_parseLine part _ (stateBehind before)).1
  have same (part : ListSection) : (part.list (hwYmlParsePlugin (fileOf (before ++ written.lines)))
      = part.list (hwYmlParsePlugin (fileOf before)) ++
        if part = written.part then written.values else []) ↔
      (offers part (stateBehind before).current (fgetsLines 1024 (fileOf written.lines))).take
          (part.max - (part.list (stateBehind before).yml).length) =
        if part = written.part then written.values else [] := by
    rw [parsed]
    exact List.append_right_inj _
  constructor
  · intro collected
    rcases collected with ⟨-, lists⟩ | ⟨failed, -⟩
    · exact fun part => (same part).mp (lists part)
    · exact absurd rfl failed
  · exact fun lists => .inl ⟨rfl, fun part => (same part).mpr (lists part)⟩

/-! ## Written texts -/

/-- A text that begins and ends without a space is not trimmed. -/
theorem Solid.trimSpace {text : CString} (solid : Solid text) : trimSpace text = text := by
  cases text with
  | nil => rfl
  | cons byte rest =>
    have first : ¬ isSpace byte = true := by
      rw [solid byte (.inl rfl)]
      exact Bool.false_ne_true
    rw [Bus.trimSpace, trim, List.dropWhile_cons_of_neg first, List.rdropWhile_eq_self_iff]
    intro filled
    rw [solid _ (.inr (List.getLast?_eq_some_getLast filled))]
    exact Bool.false_ne_true

/-- Two texts one behind the other, the first with a solid front and the second with a solid
end. -/
theorem solid_append {front back : CString} (some_ : front ≠ []) (more : back ≠ [])
    (first : ∀ byte, front.head? = some byte → isSpace byte = false)
    (last : ∀ byte, back.getLast? = some byte → isSpace byte = false) : Solid (front ++ back) := by
  intro byte ends
  rcases ends with start | final
  · rw [List.head?_append_of_ne_nil _ some_] at start
    exact first byte start
  · rw [List.getLast?_append_of_ne_nil _ more] at final
    exact last byte final

/-- A quote is no space, colon, line feed or zero byte. -/
theorem Quote.byte_plain (quote : Quote) : isSpace quote.byte = false ∧ quote.byte ≠ 58 ∧
    quote.byte ≠ newline ∧ quote.byte ≠ 0 := by
  cases quote <;> decide

/-- What is written of a scalar is not empty, on one line and solid. -/
theorem Scalar.raw_written (scalar : Scalar) :
    scalar.raw ≠ [] ∧ OneLine scalar.raw ∧ Solid scalar.raw := by
  cases scalar with
  | plain text => exact ⟨text.filled, text.line, text.solid⟩
  | quoted quote text =>
    obtain ⟨space, -, feed, zero⟩ := quote.byte_plain
    refine ⟨List.cons_ne_nil _ _, ⟨?_, ?_⟩, ?_⟩
    · simp [Scalar.raw, text.2.1, Ne.symm feed]
    · simp [Scalar.raw, text.2.2, Ne.symm zero]
    · show Solid ([quote.byte] ++ (text.1 ++ [quote.byte]))
      apply solid_append (List.cons_ne_nil _ _) (by simp)
      · intro byte first
        cases first
        exact space
      · intro byte last
        rw [List.getLast?_concat] at last
        cases last
        exact space

/-- Without its quotes a scalar is its text. -/
theorem Scalar.unquote_raw (scalar : Scalar) : unquote scalar.raw = scalar.text := by
  cases scalar with
  | plain text =>
    show unquote text.text = text.text
    have bare := text.bare
    cases shape : text.text with
    | nil => rfl
    | cons byte rest =>
      rw [shape] at bare
      have other : ¬ ((byte = 34 ∨ byte = 39) ∧ rest.getLast? = some byte) := by
        intro both
        rcases both.1 with double | single
        · exact bare.1 (congrArg some double)
        · exact bare.2 (congrArg some single)
      exact if_neg other
  | quoted quote text =>
    have quotes : (quote.byte = 34 ∨ quote.byte = 39) ∧
        (text.1 ++ [quote.byte]).getLast? = some quote.byte := by
      refine ⟨?_, List.getLast?_concat⟩
      cases quote
      · exact .inr rfl
      · exact .inl rfl
    show (if _ then (text.1 ++ [quote.byte]).dropLast else _) = text.1
    rw [if_pos quotes, List.dropLast_concat]

/-- What is written of an entry begins with its key and is not empty, on one line and solid. -/
theorem Entry.written_written (entry : Entry) :
    entry.written ≠ [] ∧ OneLine entry.written ∧ Solid entry.written := by
  unfold Entry.written
  cases value : entry.value with
  | none =>
    refine ⟨by simp, ⟨?_, ?_⟩, ?_⟩
    · simp [entry.key.line.1, newline]
    · simp [entry.key.line.2]
    · apply solid_append entry.key.filled (List.cons_ne_nil _ _)
      · exact fun byte first => entry.key.solid byte (.inl first)
      · intro byte last
        cases last
        rfl
  | some scalar =>
    obtain ⟨filled, line, solid⟩ := scalar.raw_written
    refine ⟨by simp, ⟨?_, ?_⟩, ?_⟩
    · simp [entry.key.line.1, line.1, newline]
    · simp [entry.key.line.2, line.2]
    · apply solid_append entry.key.filled (List.cons_ne_nil _ _)
      · exact fun byte first => entry.key.solid byte (.inl first)
      · intro byte last
        have ends : (58 :: 32 :: scalar.raw).getLast? = scalar.raw.getLast? := by
          show ([58, 32] ++ scalar.raw).getLast? = _
          exact List.getLast?_append_of_ne_nil _ filled
        exact solid byte (.inr (ends ▸ last))

/-! ## Reading them -/

/-- The indentation and the content of a line. -/
theorem readLine_indented (indent : Nat) {text : CString} (filled : text ≠ [])
    (plain : (0 : UInt8) ∉ text) (solid : Solid text) :
    bufferText (indented indent text) = indented indent text ∧
      ((indented indent text).takeWhile isBlank).length = indent ∧
      trim isBlank (fun byte => byte == newline || byte == 13) (indented indent text) = text := by
  have blanks : ∀ byte ∈ List.replicate indent (32 : UInt8), isBlank byte = true := by
    intro byte found
    rw [List.eq_of_mem_replicate found]
    rfl
  have narrow {byte : UInt8} (space : isSpace byte = false) :
      isBlank byte = false ∧ (byte == newline || byte == 13) = false := by
    have other (same : byte = 32 ∨ byte = 9 ∨ byte = newline ∨ byte = 13) : False := by
      rcases same with rfl | rfl | rfl | rfl <;> cases space
    constructor
    · rw [← Bool.not_eq_true, isBlank, Bool.or_eq_true, beq_iff_eq, beq_iff_eq]
      exact fun blank => other (blank.elim .inl fun tab => .inr (.inl tab))
    · rw [← Bool.not_eq_true, Bool.or_eq_true, beq_iff_eq, beq_iff_eq]
      exact fun ends => other (.inr (.inr ends))
  obtain ⟨byte, rest, rfl⟩ := List.exists_cons_of_ne_nil filled
  have first := (narrow (solid byte (.inl rfl))).1
  refine ⟨bufferText_eq ?_, ?_, ?_⟩
  · intro zero
    rcases List.mem_append.mp zero with front | back
    · cases List.eq_of_mem_replicate front
    · exact plain back
  · rw [indented, List.takeWhile_append_of_pos blanks,
      List.takeWhile_cons_of_neg (by simp [first])]
    simp
  · rw [trim, indented, List.dropWhile_append_of_pos blanks,
      List.dropWhile_cons_of_neg (by simp [first]), List.rdropWhile_eq_self_iff]
    intro more
    rw [(narrow (solid _ (.inr (List.getLast?_eq_some_getLast more)))).2]
    exact Bool.false_ne_true

/-- The line of a dash is an item. -/
theorem readLine_dash (indent : Nat) {text : CString} (filled : text ≠ [])
    (plain : (0 : UInt8) ∉ text) (solid : Solid text) :
    readLine (indented indent (45 :: 32 :: text)) = (indent, .item text) := by
  have whole : Solid (45 :: 32 :: text) := by
    show Solid ([45, 32] ++ text)
    apply solid_append (List.cons_ne_nil _ _) filled
    · intro byte first
      cases first
      rfl
    · exact fun byte last => solid byte (.inr last)
  obtain ⟨same, depth, content⟩ := readLine_indented indent (List.cons_ne_nil 45 (32 :: text))
    (by simp [plain]) whole
  unfold readLine
  rw [same]
  dsimp only
  rw [depth, content]
  show (indent, YmlLine.item (trimSpace text)) = _
  rw [solid.trimSpace]

/-- The line of a key is a key with its value. -/
theorem readLine_entry (indent : Nat) (entry : Entry) :
    readLine (indented indent entry.written) = (indent, .pair entry.key.text entry.raw) := by
  obtain ⟨filled, line, solid⟩ := entry.written_written
  obtain ⟨same, depth, content⟩ := readLine_indented indent filled line.2 solid
  have cut : cutAt 58 entry.written =
      some (entry.key.text, entry.value.elim [] fun scalar => 32 :: scalar.raw) :=
    cutAt_append entry.key.colon _
  have value : trimSpace (entry.value.elim [] fun scalar => 32 :: scalar.raw) = entry.raw := by
    unfold Entry.raw
    cases entry.value with
    | none => rfl
    | some scalar =>
      show trimSpace (32 :: scalar.raw) = scalar.raw
      rw [trimSpace, trim_cons _ rfl]
      exact scalar.raw_written.2.2.trimSpace
  obtain ⟨byte, rest, shape⟩ := List.exists_cons_of_ne_nil entry.key.filled
  have start := entry.key.start
  rw [shape] at start
  have key := entry.key.solid.trimSpace
  unfold readLine
  rw [same]
  dsimp only
  rw [depth, content]
  split
  next empty => exact absurd empty filled
  next text comment =>
    rw [Entry.written, shape, List.cons_append] at comment
    exact absurd (congrArg some (List.cons.inj comment).1) start.2
  next text dash =>
    rw [Entry.written, shape, List.cons_append] at dash
    exact absurd (congrArg some (List.cons.inj dash).1) start.1
  next =>
    rw [cut]
    dsimp only
    rw [key, value, if_neg entry.key.filled]

/-- What stands behind a dash is not empty, on one line and solid. -/
theorem YmlItem.first_written (item : YmlItem) :
    item.first ≠ [] ∧ OneLine item.first ∧ Solid item.first := by
  cases item with
  | scalar value => exact value.1.raw_written
  | placeholder quote => exact (Scalar.quoted quote ⟨[], by simp [OneLine]⟩).raw_written
  | mapping before protocol after =>
    cases before with
    | nil => exact (Entry.mk protocolKey (some protocol.1)).written_written
    | cons entry before => exact entry.1.written_written

/-- A line that is written. -/
theorem WrittenSection.lines_plain (written : WrittenSection) :
    ∀ line ∈ written.lines, newline ∉ line := by
  have behind (indent : Nat) {text : CString} (plain : newline ∉ text) :
      newline ∉ indented indent text := by
    intro feed
    rcases List.mem_append.mp feed with front | back
    · cases List.eq_of_mem_replicate front
    · exact plain back
  intro line found
  rcases List.mem_cons.mp found with rfl | later
  · apply behind
    cases written.part <;> decide
  · obtain ⟨item, -, there⟩ := List.mem_flatMap.mp later
    rcases List.mem_cons.mp there with rfl | below
    · apply behind
      simp [item.first_written.2.1.1, newline]
    · obtain ⟨entry, -, rfl⟩ := List.mem_map.mp below
      exact behind _ entry.written_written.2.1.1

/-- The name of a section as the key of its line. -/
def ListSection.entry (part : ListSection) : Entry where
  key :=
    { text := part.name
      filled := by cases part <;> decide
      line := by cases part <;> exact ⟨by decide, by decide⟩
      solid := solid_of_all (by cases part <;> decide)
      start := by cases part <;> exact ⟨by decide, by decide⟩
      colon := by cases part <;> decide }
  value := none

/-- What a line of a key offers, and the section behind it. -/
theorem entry_line (indent : Nat) (entry : Entry) (current : CString) :
    offered (indented indent entry.written ++ [newline]) = none ∧
      sectionAfter current (indented indent entry.written ++ [newline]) =
        (heading entry.key.text entry.raw).getD current := by
  unfold offered sectionAfter
  rw [readLine_newline, readLine_entry]
  exact ⟨rfl, rfl⟩

/-- What a line of a dash offers, and the section behind it. -/
theorem dash_line (indent : Nat) (item : YmlItem) (current : CString) :
    offered (indented indent (45 :: 32 :: item.first) ++ [newline]) = itemText item.first ∧
      sectionAfter current (indented indent (45 :: 32 :: item.first) ++ [newline]) = current := by
  obtain ⟨filled, line, solid⟩ := item.first_written
  unfold offered sectionAfter
  rw [readLine_newline, readLine_dash indent filled line.2 solid]
  exact ⟨rfl, rfl⟩

/-! ## Items whose value is read -/

/-- The value of an item is what the line of its dash offers: a text has no colon, and the first
key of a map is its protocol or has the same value. -/
def YmlItem.Direct : YmlItem → Prop
  | .scalar value => (58 : UInt8) ∉ value.1.text
  | .placeholder _ => True
  | .mapping [] _ _ => True
  | .mapping (entry :: _) protocol _ => entry.1.value.map Scalar.text = some protocol.1.text

/-- Without quotes and spaces no bytes are added. -/
theorem unquote_trimSpace (text : CString) : (unquote (trimSpace text)).Sublist text := by
  have trimmed : (trimSpace text).Sublist text :=
    ((List.rdropWhile_prefix isSpace _).sublist).trans (List.dropWhile_sublist isSpace)
  refine List.Sublist.trans ?_ trimmed
  cases trimSpace text with
  | nil => exact List.Sublist.refl _
  | cons byte rest =>
    show (if (byte = 34 ∨ byte = 39) ∧ rest.getLast? = some byte then rest.dropLast
      else byte :: rest).Sublist (byte :: rest)
    split
    · exact (List.dropLast_sublist rest).trans (List.sublist_cons_self byte rest)
    · exact List.Sublist.refl _

/-- Colons of a scalar are those of its text. -/
theorem Scalar.count_raw (scalar : Scalar) : scalar.raw.count 58 = scalar.text.count 58 := by
  cases scalar with
  | plain text => rfl
  | quoted quote text =>
    have other := quote.byte_plain.2.1
    show (quote.byte :: (text.1 ++ [quote.byte])).count 58 = text.1.count 58
    rw [List.count_cons_of_ne other, List.count_append, List.count_cons_of_ne other]
    rfl

/-- A scalar without a colon is offered as its text. -/
theorem itemText_scalar {scalar : Scalar} (filled : scalar.text ≠ [])
    (plain : (58 : UInt8) ∉ scalar.text) : itemText scalar.raw = some scalar.text := by
  have absent : (58 : UInt8) ∉ scalar.raw := by
    rw [← List.count_eq_zero, scalar.count_raw]
    exact List.count_eq_zero.mpr plain
  have cut : cutAt 58 scalar.raw = none := by
    rw [cutAt_idxOf?, List.idxOf?_eq_none_iff.mpr absent]
    rfl
  unfold itemText
  rw [cut]
  dsimp only
  rw [scalar.raw_written.2.2.trimSpace, scalar.unquote_raw, if_neg filled]

/-- A scalar with a colon is not: what is offered has fewer of them. -/
theorem itemText_colon {scalar : Scalar} (colon : (58 : UInt8) ∈ scalar.text) :
    itemText scalar.raw ≠ some scalar.text := by
  have present : (58 : UInt8) ∈ scalar.raw := by
    rw [← List.count_pos_iff, scalar.count_raw]
    exact List.count_pos_iff.mpr colon
  cases cut : cutAt 58 scalar.raw with
  | none =>
    rw [cutAt_idxOf?, Option.map_eq_none_iff, List.idxOf?_eq_none_iff] at cut
    exact absurd present cut
  | some parts =>
    obtain ⟨front, back⟩ := parts
    have shape := (cutAt_parts cut).1
    have fewer : (unquote (trimSpace back)).count 58 < scalar.text.count 58 := by
      have below := (unquote_trimSpace back).count_le 58
      have all := scalar.count_raw
      rw [shape, List.count_append, List.count_cons_self] at all
      omega
    unfold itemText
    rw [cut]
    dsimp only
    intro same
    split at same
    · cases same
    · rw [Option.some.inj same] at fewer
      omega

/-- An entry behind a dash offers the text of its value. -/
theorem itemText_entry (entry : Entry) :
    itemText entry.written = (entry.value.map Scalar.text).filter (· ≠ []) := by
  have cut : cutAt 58 entry.written =
      some (entry.key.text, entry.value.elim [] fun scalar => 32 :: scalar.raw) :=
    cutAt_append entry.key.colon _
  unfold itemText
  rw [cut]
  dsimp only
  cases entry.value with
  | none => rfl
  | some scalar =>
    have text : unquote (trimSpace (32 :: scalar.raw)) = scalar.text := by
      rw [trimSpace, trim_cons _ rfl]
      exact (congrArg unquote scalar.raw_written.2.2.trimSpace).trans scalar.unquote_raw
    show (if unquote (trimSpace (32 :: scalar.raw)) = [] then none else
      some (unquote (trimSpace (32 :: scalar.raw)))) = _
    rw [text]
    by_cases empty : scalar.text = []
    · show _ = Option.filter (· ≠ []) (some scalar.text)
      rw [if_pos empty, empty]
      rfl
    · simp [empty, Option.filter]

/-- Two quotes offer nothing. -/
theorem itemText_placeholder (quote : Quote) : itemText [quote.byte, quote.byte] = none := by
  cases quote <;> decide

/-- When the line of a dash offers the value of its item. -/
theorem direct_iff (item : YmlItem) : itemText item.first = item.value ↔ item.Direct := by
  cases item with
  | scalar value =>
    constructor
    · exact fun same colon => itemText_colon colon same
    · exact fun plain => itemText_scalar value.2 plain
  | placeholder quote => exact iff_of_true (itemText_placeholder quote) trivial
  | mapping before protocol after =>
    cases before with
    | nil =>
      refine iff_of_true ?_ trivial
      show itemText (Entry.mk protocolKey (some protocol.1)).written = some protocol.1.text
      rw [itemText_entry]
      simp [Option.filter, protocol.2]
    | cons entry before =>
      show itemText entry.1.written = some protocol.1.text ↔
        entry.1.value.map Scalar.text = some protocol.1.text
      rw [itemText_entry]
      constructor
      · exact fun same => (Option.filter_eq_some_iff.mp same).1
      · intro same
        rw [same]
        simp [Option.filter, protocol.2]

/-! ## The section at an item -/

/-- The section behind keys on lines of their own. -/
def behindKeys (current : CString) (entries : List Entry) : CString :=
  entries.foldl (fun current entry => (heading entry.key.text entry.raw).getD current) current

/-- The section behind items. -/
def sectionBehind (current : CString) (items : List YmlItem) : CString :=
  items.foldl (fun current item => behindKeys current item.others) current

/-- The texts that items add to a list, from a section on. -/
def itemOffers (part : ListSection) : CString → List YmlItem → List CString
  | _, [] => []
  | current, item :: rest =>
    (if current = part.name then (itemText item.first).toList else []) ++
      itemOffers part (behindKeys current item.others) rest

/-- Keys on lines of their own offer nothing. -/
theorem offers_keys (part : ListSection) (indent : Nat) (entries : List Entry)
    (current : CString) :
    offers part current (entries.map fun entry => indented indent entry.written ++ [newline]) =
        [] ∧
      (entries.map fun entry => indented indent entry.written ++ [newline]).foldl sectionAfter
        current = behindKeys current entries := by
  induction entries generalizing current with
  | nil => exact ⟨rfl, rfl⟩
  | cons entry rest ih =>
    obtain ⟨nothing, behind⟩ := entry_line indent entry current
    rw [List.map_cons, offers, List.foldl_cons, nothing, behind, (ih _).1, (ih _).2]
    exact ⟨by simp, rfl⟩

/-- Items offer what stands behind their dashes. -/
theorem offers_items (part : ListSection) (written : WrittenSection) (items : List YmlItem)
    (current : CString) :
    offers part current ((items.flatMap written.itemLines).map (· ++ [newline])) =
      itemOffers part current items := by
  induction items generalizing current with
  | nil => rfl
  | cons item rest ih =>
    obtain ⟨text, same⟩ := dash_line written.indent item current
    have keys := offers_keys part written.deeper item.others current
    rw [List.flatMap_cons, List.map_append, offers_append, itemOffers]
    have lines : (written.itemLines item).map (· ++ [newline]) =
        (indented written.indent (45 :: 32 :: item.first) ++ [newline]) ::
          item.others.map fun entry => indented written.deeper entry.written ++ [newline] := by
      simp [WrittenSection.itemLines]
    rw [lines, offers, List.foldl_cons, text, same, keys.1, keys.2, ih, List.append_nil]

/-- A section whose lines fit the buffer offers what its items do. -/
theorem offers_written (part : ListSection) (written : WrittenSection) (current : CString)
    (short : ∀ line ∈ written.lines, line.length ≤ 1022) :
    offers part current (fgetsLines 1024 (fileOf written.lines)) =
      itemOffers part written.part.name written.items := by
  have pieces : fgetsLines 1024 (fileOf written.lines) = written.lines.map (· ++ [newline]) := by
    apply fgetsLines_flatMap
    intro line found
    have fits := short line found
    exact ⟨written.lines_plain line found, by omega⟩
  have head := entry_line written.base written.part.entry current
  have named : (heading written.part.name []).getD current = written.part.name := by
    cases written.part <;> rfl
  have start : offered (indented written.base (written.part.name ++ [58]) ++ [newline]) = none ∧
      sectionAfter current (indented written.base (written.part.name ++ [58]) ++ [newline]) =
        written.part.name := ⟨head.1, head.2.trans named⟩
  rw [pieces, WrittenSection.lines, List.map_cons, offers, start.1, start.2, offers_items]
  simp

/-! ## When a section is collected -/

/-- Every item with a value is read in a section. -/
def ReadIn (part : ListSection) (current : CString) (items : List YmlItem) : Prop :=
  ∀ front item back, items = front ++ item :: back → item.value ≠ none →
    sectionBehind current front = part.name

/-- The first item, and the others behind its keys. -/
theorem readIn_cons {part : ListSection} {current : CString} {item : YmlItem}
    {rest : List YmlItem} :
    ReadIn part current (item :: rest) ↔
      (item.value ≠ none → current = part.name) ∧
        ReadIn part (behindKeys current item.others) rest := by
  constructor
  · intro read
    refine ⟨fun valued => read [] item rest rfl valued, ?_⟩
    intro front other back shape valued
    exact read (item :: front) other back (by rw [shape]; rfl) valued
  · rintro ⟨here, later⟩ front other back shape valued
    cases front with
    | nil =>
      obtain ⟨rfl, -⟩ := List.cons.inj shape
      exact here valued
    | cons first front =>
      obtain ⟨rfl, same⟩ := List.cons.inj shape
      exact later front other back same valued

/-- An item without a value offers nothing. -/
theorem itemText_none {item : YmlItem} (empty : item.value = none) :
    itemText item.first = none := by
  cases item with
  | scalar value => cases empty
  | placeholder quote => exact itemText_placeholder quote
  | mapping before protocol after => cases empty

/-- What one item adds to a list is its value exactly when its line offers it, in the section. -/
theorem offer_iff (part : ListSection) (current : CString) (item : YmlItem) :
    (if current = part.name then (itemText item.first).toList else []) = item.value.toList ↔
      item.Direct ∧ (item.value ≠ none → current = part.name) := by
  rw [← direct_iff]
  cases value : item.value with
  | none =>
    rw [itemText_none value]
    simp
  | some text =>
    by_cases here : current = part.name
    · rw [if_pos here]
      cases itemText item.first with
      | none => simp
      | some other => simp [here]
    · rw [if_neg here]
      simp [here]

/-- One item offers no more than it has. -/
theorem offer_length (part : ListSection) (current : CString) (item : YmlItem) :
    (if current = part.name then (itemText item.first).toList else []).length ≤
      item.value.toList.length := by
  cases value : item.value with
  | none =>
    rw [itemText_none value]
    simp
  | some text =>
    split
    · cases itemText item.first <;> simp
    · exact Nat.zero_le _

/-- The value of the first item is in front of the others. -/
theorem values_cons (item : YmlItem) (rest : List YmlItem) :
    (item :: rest).filterMap YmlItem.value =
      item.value.toList ++ rest.filterMap YmlItem.value := by
  rw [List.filterMap_cons]
  cases item.value <;> rfl

/-- Items offer no more texts than they have values. -/
theorem itemOffers_length (part : ListSection) (current : CString) (items : List YmlItem) :
    (itemOffers part current items).length ≤ (items.filterMap YmlItem.value).length := by
  induction items generalizing current with
  | nil => exact Nat.le_refl 0
  | cons item rest ih =>
    have one := offer_length part current item
    have later := ih (behindKeys current item.others)
    rw [itemOffers, values_cons, List.length_append, List.length_append]
    omega

/-- Items offer their values exactly when each line of a dash does, in the section. -/
theorem itemOffers_iff (part : ListSection) (current : CString) (items : List YmlItem) :
    itemOffers part current items = items.filterMap YmlItem.value ↔
      (∀ item ∈ items, item.Direct) ∧ ReadIn part current items := by
  induction items generalizing current with
  | nil =>
    refine iff_of_true rfl ⟨fun item found => absurd found List.not_mem_nil, ?_⟩
    intro front item back shape
    exact absurd shape (by simp)
  | cons item rest ih =>
    have one := offer_length part current item
    have later := itemOffers_length part (behindKeys current item.others) rest
    have parts : itemOffers part current (item :: rest) = (item :: rest).filterMap YmlItem.value ↔
        (if current = part.name then (itemText item.first).toList else []) =
            item.value.toList ∧
          itemOffers part (behindKeys current item.others) rest =
            rest.filterMap YmlItem.value := by
      rw [itemOffers, values_cons]
      constructor
      · intro same
        -- Neither part is longer than it should be, so neither is shorter.
        have lengths := congrArg List.length same
        rw [List.length_append, List.length_append] at lengths
        exact List.append_inj same (by omega)
      · rintro ⟨first, others⟩
        rw [first, others]
    rw [parts, offer_iff, ih, readIn_cons, List.forall_mem_cons]
    constructor
    · exact fun ⟨⟨direct, here⟩, all, read⟩ => ⟨⟨direct, all⟩, here, read⟩
    · exact fun ⟨⟨direct, all⟩, here, read⟩ => ⟨⟨direct, here⟩, all, read⟩

/-- Items that are read in their section offer nothing to another list. -/
theorem itemOffers_other {part own : ListSection} (other : part ≠ own) {current : CString}
    {items : List YmlItem} (read : ReadIn own current items) :
    itemOffers part current items = [] := by
  induction items generalizing current with
  | nil => rfl
  | cons item rest ih =>
    obtain ⟨here, later⟩ := readIn_cons.mp read
    rw [itemOffers, ih later, List.append_nil]
    by_cases valued : item.value = none
    · rw [itemText_none valued]
      exact ite_self _
    · have away : current ≠ part.name := by
        rw [here valued]
        exact fun same => other (ListSection.name_inj.mp same).symm
      rw [if_neg away]

/-- The condition of a section whose lines fit the buffer: its values fit the array, the line of
each dash shows the value of the item, and no key on a line of its own ends the section before an
item that has a value. -/
structure Shows (before : List CString) (written : WrittenSection) : Prop where
  /-- There is room for the values. -/
  room : written.values.length ≤
    written.part.max - (written.part.list (stateBehind before).yml).length
  /-- The values are on the lines of the dashes. -/
  direct : ∀ item ∈ written.items, item.Direct
  /-- The section stays. -/
  stays : ReadIn written.part written.part.name written.items

/-- The condition of a section with a longer line: the pieces that are read of it happen to offer
its values. -/
def PiecesOffer (before : List CString) (written : WrittenSection) : Prop :=
  ∀ part : ListSection,
    (offers part (stateBehind before).current (fgetsLines 1024 (fileOf written.lines))).take
        (part.max - (part.list (stateBehind before).yml).length) =
      if part = written.part then written.values else []

/-- A section is collected exactly under its condition. -/
theorem section_collected_iff (before : List CString) (written : WrittenSection) :
    Collected before written ↔
      ((∀ line ∈ written.lines, line.length ≤ 1022) → Shows before written) ∧
      ((∃ line ∈ written.lines, 1022 < line.length) → PiecesOffer before written) := by
  rw [collected_iff_offers]
  by_cases short : ∀ line ∈ written.lines, line.length ≤ 1022
  · have none : ¬ ∃ line ∈ written.lines, 1022 < line.length := by
      rintro ⟨line, found, long⟩
      have fits := short line found
      omega
    simp only [offers_written _ written _ short]
    constructor
    · intro lists
      refine ⟨fun _ => ?_, fun long => absurd long none⟩
      have own := lists written.part
      rw [if_pos rfl] at own
      have few := itemOffers_length written.part written.part.name written.items
      have taken := congrArg List.length own
      rw [List.length_take] at taken
      have values : written.values.length =
          (written.items.filterMap YmlItem.value).length := rfl
      have whole : itemOffers written.part written.part.name written.items = written.values := by
        rw [← own, List.take_of_length_le (by omega)]
      obtain ⟨direct, stays⟩ := (itemOffers_iff _ _ _).mp whole
      exact ⟨by omega, direct, stays⟩
    · rintro ⟨condition, _⟩ part
      obtain ⟨room, direct, stays⟩ := condition short
      by_cases own : part = written.part
      · have all : itemOffers written.part written.part.name written.items = written.values :=
          (itemOffers_iff _ _ _).mpr ⟨direct, stays⟩
        rw [if_pos own, own, all, List.take_of_length_le room]
      · rw [if_neg own, itemOffers_other own stays, List.take_nil]
  · have long : ∃ line ∈ written.lines, 1022 < line.length := by
      simpa using short
    constructor
    · exact fun lists => ⟨fun all => absurd all short, fun _ => lists⟩
    · exact fun ⟨_, pieces⟩ => pieces long

/-- A text between double quotes. -/
def quotedText (text : String) (line : OneLine (lit text)) : Scalar :=
  .quoted .double ⟨lit text, line⟩

/-- A map with a version before its protocol. -/
def versionFirst : YmlItem :=
  .mapping [⟨⟨⟨lit "version", by decide, ⟨by decide, by decide⟩, solid_of_all (by decide),
      ⟨by decide, by decide⟩, by decide⟩, some (quotedText "1.0" ⟨by decide, by decide⟩)⟩,
      by decide⟩]
    ⟨quotedText "NP" ⟨by decide, by decide⟩, by decide⟩ []

/-- A text with a colon loses its front, a map gives the value of its first key, and the item behind
a full list is dropped, without an error. -/
theorem items_altered :
    ¬ Collected [] ⟨.files, 0, 2, 4,
        [.scalar ⟨quotedText "http://host/file" ⟨by decide, by decide⟩, by decide⟩]⟩ ∧
      ¬ Collected [] ⟨.requires, 0, 2, 4, [versionFirst]⟩ ∧
      ¬ Collected [] ⟨.conflicts, 0, 2, 4, List.replicate 17
        (.scalar ⟨quotedText "NP" ⟨by decide, by decide⟩, by decide⟩)⟩ := by
  have unread {written : WrittenSection}
      (lists : (written.part.list (hwYmlParsePlugin (fileOf written.lines))) ≠ written.values) :
      ¬ Collected [] written := by
    intro collected
    rcases collected with ⟨-, same⟩ | ⟨failed, -⟩
    · have own := same written.part
      rw [if_pos rfl] at own
      apply lists
      apply own.trans
      cases written.part <;> rfl
    · exact failed rfl
  refine ⟨unread ?_, unread ?_, unread ?_⟩ <;> decide +kernel

end HwrunOs.Bus
