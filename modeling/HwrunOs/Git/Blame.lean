import HwrunOs.Git.Executor

/-!
# The origin of every line

`git_ops_blame` of `git/src/history.c` reads what `git blame --line-porcelain` prints: a group of
lines for each line of the file. A header is told by its first byte, a digit or one of `a` to
`f`, and the key words `author`, `committer` and `filename` begin with such a byte as well.
-/

namespace HwrunOs.Git

open HwrunOs.Bytes

/-- `git_blame_t`. -/
structure GitBlame where
  /-- The number of the line. -/
  lineNo : Nat
  /-- The commit it comes from. -/
  commitId : Field 64
  /-- Who wrote it. -/
  author : Field 128
  /-- When. -/
  date : Field 32
  /-- The line. -/
  content : Field 512

/-- What the loop carries from line to line. -/
structure BlameState where
  /-- `line_no`. -/
  lineNo : Nat
  /-- `cur_hash`. -/
  hash : Field 64
  /-- `cur_author`. -/
  author : Field 128
  /-- `cur_date`. -/
  date : Field 32
  /-- The list from `head` to `tail`. -/
  records : List GitBlame

namespace BlameState

/-- Before the first line. -/
def start : BlameState := ⟨0, Field.copy [], Field.copy [], Field.copy [], []⟩

/-- The record of a content line. -/
def record (state : BlameState) (content : CString) : GitBlame :=
  ⟨state.lineNo, state.hash, state.author, state.date, Field.copy content⟩

end BlameState

/-- The lines of a text whose first line begins with `line`. An unfinished last line counts when
it is not empty. -/
def linesFrom (line : CString) : CString → List CString
  | [] => if line = [] then [] else [line]
  | byte :: rest =>
    if byte = newline then line :: linesFrom [] rest else linesFrom (line ++ [byte]) rest

/-- A header begins with a digit or with one of `a` to `f`. -/
def startsHash (byte : UInt8) : Bool := 48 ≤ byte && byte ≤ 57 || 97 ≤ byte && byte ≤ 102

/-- The date of a time. `ctime` is the printed form, or `none` when there is none. -/
def BlameState.dated (ctime : Int → Option CString) (state : BlameState) (time : CString) :
    BlameState :=
  match ctime (strtoll time).1 with
  | none => state
  | some date => { state with date := Field.copy (date.rdropWhile (· == newline)) }

/-- The last branch: a content line ends its record. The lines `filename` and `summary` leave
nothing behind. -/
def BlameState.ended (state : BlameState) : CString → BlameState
  | 9 :: content =>
    { state with
      hash := Field.copy []
      author := Field.copy []
      date := Field.copy []
      records := state.records ++ [state.record content] }
  | _ => state

/-- One pass of the loop. -/
def blameLine (ctime : Int → Option CString) (state : BlameState) (line : CString) : BlameState :=
  if line.head?.any startsHash then
    if 32 ∈ line then
      { state with
        hash := Field.copy (line.takeWhile (· != 32))
        lineNo := (state.lineNo + 1) % 2 ^ 32 }
    else state
  else if lit "author " <+: line then { state with author := Field.copy (line.drop 7) }
  else if lit "author-time " <+: line then state.dated ctime (line.drop 12)
  else state.ended line

/-- The records of an output. -/
def blameRecords (ctime : Int → Option CString) (text : CString) : List GitBlame :=
  ((linesFrom [] text).foldl (blameLine ctime) .start).records

/-- The arguments of git: `char cmd[512]`. -/
def blameCommand (file : CString) : CString :=
  snprintf 512 (lit "blame --line-porcelain -c -- " ++ file)

/-- `git_ops_blame`. `NULL` is the empty list. -/
def gitOpsBlame (context : GitContext) (host : Host) (ctime : Int → Option CString)
    (world : World) (file : Option CString) : World × List GitBlame :=
  match file with
  | none => (world, [])
  | some file =>
    let (world, result) := gitExec context host world none (some (blameCommand file))
    match (result.filter GitResult.success).bind GitResult.stdout with
    | none => (world, [])
    | some output => (world, blameRecords ctime (bufferText output))

/-! ## What git prints -/

/-- Text inside a line. -/
abbrev LineText := { text : CString // ∀ byte ∈ text, byte ≠ 0 ∧ byte ≠ newline }

/-- The key words that may follow the line of the author. -/
def keyWords : List CString :=
  [lit "author-mail", lit "author-time", lit "author-tz", lit "committer", lit "committer-mail",
    lit "committer-time", lit "committer-tz", lit "summary", lit "previous", lit "boundary",
    lit "filename"]

/-- A key line: a key word, and what follows it after a blank. -/
structure KeyLine where
  /-- The key word. -/
  key : CString
  /-- Its value; `boundary` has none. -/
  value : Option LineText
  /-- Git knows the key word. -/
  known : key ∈ keyWords

/-- The line itself. -/
def KeyLine.text (line : KeyLine) : CString :=
  line.key ++ (line.value.map fun value => 32 :: value.1).getD []

/-- A byte of a hash. -/
def isHexByte (byte : UInt8) : Bool := isDigit byte || 97 ≤ byte && byte ≤ 102

/-- What git prints for one line of the file. -/
structure BlameGroup where
  /-- The commit. -/
  hash : CString
  /-- A hash is written in lower case. -/
  hash_hex : hash.all isHexByte = true
  /-- The hash has the length of SHA-1 or of SHA-256. -/
  hash_length : hash.length = 40 ∨ hash.length = 64
  /-- The number of the line in that commit. -/
  orig : Nat
  /-- The number of the line in the file. -/
  final : Nat
  /-- The number of lines that the group stands for. -/
  num : Option Nat
  /-- The author. -/
  author : LineText
  /-- The key lines behind the author. -/
  keys : List KeyLine
  /-- The line of the file. -/
  content : LineText

namespace BlameGroup

/-- The header. -/
def header (group : BlameGroup) : CString :=
  group.hash ++ 32 :: (decimal group.orig ++ 32 :: (decimal group.final ++
    (group.num.map fun num => 32 :: decimal num).getD []))

/-- The lines of a group. -/
def lines (group : BlameGroup) : List CString :=
  group.header :: (lit "author " ++ group.author.1) ::
    (group.keys.map KeyLine.text ++ [9 :: group.content.1])

end BlameGroup

/-- The output for a whole file. -/
def porcelain (groups : List BlameGroup) : CString :=
  (groups.flatMap BlameGroup.lines).flatMap (· ++ [newline])

/-- What the caller sees of a record: its number, commit, author and line. -/
def GitBlame.shown (record : GitBlame) : Nat × CString × CString × CString :=
  (record.lineNo, record.commitId.1, record.author.1, record.content.1)

/-- What the records have to show when the first has that number. -/
def wanted (number : Nat) : List BlameGroup → List (Nat × CString × CString × CString)
  | [] => []
  | group :: groups =>
    (number, group.hash, group.author.1, group.content.1) :: wanted (number + 1) groups


/-! ## What the loop makes of it -/

/-- A line is read up to its newline. -/
theorem linesFrom_line (line text rest : CString) (plain : newline ∉ text) :
    linesFrom line (text ++ newline :: rest) = (line ++ text) :: linesFrom [] rest := by
  induction text generalizing line with
  | nil => simp [linesFrom]
  | cons byte text ih =>
    obtain ⟨other, later⟩ := List.ne_and_not_mem_of_not_mem_cons plain
    have whole := ih (line ++ [byte]) later
    rw [List.cons_append, linesFrom, if_neg (Ne.symm other), whole, List.append_assoc]
    rfl

/-- Lines without newlines are read back. -/
theorem linesFrom_flatMap (lines : List CString) (plain : ∀ line ∈ lines, newline ∉ line) :
    linesFrom [] (lines.flatMap (· ++ [newline])) = lines := by
  induction lines with
  | nil => rfl
  | cons line lines ih =>
    have later := ih fun other found => plain other (List.mem_cons_of_mem _ found)
    have first := linesFrom_line [] line (lines.flatMap (· ++ [newline]))
      (plain line List.mem_cons_self)
    rw [List.flatMap_cons, List.append_assoc, List.singleton_append, first, later, List.nil_append]

/-- A line that begins like a hash and has a blank is taken as a header. -/
theorem blameLine_header (ctime : Int → Option CString) (state : BlameState) {word : CString}
    (rest : CString) (begins : word.head?.any startsHash = true) (solid : 32 ∉ word) :
    blameLine ctime state (word ++ 32 :: rest) =
      { state with hash := Field.copy word, lineNo := (state.lineNo + 1) % 2 ^ 32 } := by
  have head : (word ++ 32 :: rest).head?.any startsHash = true := by
    cases word with
    | nil => simp at begins
    | cons byte word => exact begins
  have blank : 32 ∈ word ++ 32 :: rest := by simp
  have cut : (word ++ 32 :: rest).takeWhile (· != 32) = word := by
    rw [List.takeWhile_append_of_pos]
    · simp
    · intro byte found
      exact bne_iff_ne.mpr fun same => solid (same ▸ found)
  rw [blameLine, if_pos head, if_pos blank, cut]

/-- A line without a blank that begins like a hash is skipped. -/
theorem blameLine_solid (ctime : Int → Option CString) (state : BlameState) {line : CString}
    (begins : line.head?.any startsHash = true) (solid : 32 ∉ line) :
    blameLine ctime state line = state := by
  rw [blameLine, if_pos begins, if_neg solid]

/-- The branches of the author are not reached: their lines begin like a hash. -/
theorem blameLine_ended (ctime : Int → Option CString) (state : BlameState) {line : CString}
    (other : line.head?.any startsHash = false) :
    blameLine ctime state line = state.ended line := by
  have unlike (word : CString) (begins : word.head?.any startsHash = true) : ¬ word <+: line := by
    rintro ⟨rest, rfl⟩
    cases word with
    | nil => simp at begins
    | cons byte word =>
      rw [List.cons_append, List.head?_cons] at other
      rw [List.head?_cons, other] at begins
      cases begins
  rw [blameLine, if_neg (by rw [other]; decide), if_neg (unlike _ (by decide)),
    if_neg (unlike _ (by decide))]

/-- What a key word is to the loop. -/
theorem keyWords_kind {word : CString} (known : word ∈ lit "author" :: keyWords) :
    32 ∉ word ∧ newline ∉ word ∧ (0 : UInt8) ∉ word ∧ word.length < 64 ∧
      word.all isHexByte = false ∧ word.head? ≠ some 9 ∧ word ≠ [] := by
  have all : (lit "author" :: keyWords).all (fun word =>
      !word.contains 32 && !word.contains newline && !word.contains 0 &&
        decide (word.length < 64) && !word.all isHexByte && word.head? != some 9 &&
        word != []) = true := by
    decide +kernel
  have kind := List.all_eq_true.mp all word known
  simp only [Bool.and_eq_true, Bool.not_eq_true', decide_eq_true_eq, bne_iff_ne] at kind
  obtain ⟨⟨⟨⟨⟨⟨blank, feed⟩, zero⟩, short⟩, letters⟩, tab⟩, filled⟩ := kind
  exact ⟨by simpa using blank, by simpa using feed, by simpa using zero, short, letters, tab,
    filled⟩

/-- A line without a tab in front ends no record. -/
theorem ended_other (state : BlameState) {line : CString} (text : line.head? ≠ some 9) :
    state.ended line = state := by
  unfold BlameState.ended
  split
  · exact absurd rfl text
  · rfl

/-- The loop has lost the author and holds a key word for the hash. -/
structure Misled (state : BlameState) : Prop where
  /-- No author. -/
  author : state.author.1 = []
  /-- A key word. -/
  hash : state.hash.1 ∈ lit "author" :: keyWords

/-- A header that is a key word misleads the loop. -/
theorem misled_header (ctime : Int → Option CString) {state : BlameState} {word : CString}
    (rest : CString) (known : word ∈ lit "author" :: keyWords)
    (begins : word.head?.any startsHash = true) (author : state.author.1 = []) :
    Misled (blameLine ctime state (word ++ 32 :: rest)) ∧
      (blameLine ctime state (word ++ 32 :: rest)).records = state.records := by
  obtain ⟨solid, -, -, short, -⟩ := keyWords_kind known
  have whole : (Field.copy word : Field 64).1 = word := snprintf_eq short
  rw [blameLine_header ctime state rest begins solid]
  exact ⟨⟨author, by rw [whole]; exact known⟩, rfl⟩

/-- Key lines leave the loop misled. -/
theorem misled_key (ctime : Int → Option CString) {state : BlameState} (misled : Misled state)
    (line : KeyLine) : Misled (blameLine ctime state line.text) ∧
      (blameLine ctime state line.text).records = state.records := by
  obtain ⟨key, value, known⟩ := line
  have known := List.mem_cons_of_mem (lit "author") known
  obtain ⟨solid, -, -, -, -, tab, filled⟩ := keyWords_kind known
  obtain ⟨first, word, rfl⟩ := List.exists_cons_of_ne_nil filled
  by_cases begins : startsHash first = true
  · cases value with
    | none =>
      have skipped : blameLine ctime state (first :: word) = state :=
        blameLine_solid ctime state begins solid
      have same : KeyLine.text ⟨first :: word, none, ‹_›⟩ = first :: word := List.append_nil _
      rw [same, skipped]
      exact ⟨misled, rfl⟩
    | some value => exact misled_header ctime value.1 known begins misled.author
  · have other : ∀ rest, ((first :: word) ++ rest).head?.any startsHash = false := by
      intro rest
      show startsHash first = false
      simpa using begins
    have skipped : ∀ rest, blameLine ctime state ((first :: word) ++ rest) = state := by
      intro rest
      rw [blameLine_ended ctime state (other rest)]
      exact ended_other state tab
    rw [KeyLine.text, skipped]
    exact ⟨misled, rfl⟩

/-- So does a run of key lines. -/
theorem misled_keys (ctime : Int → Option CString) (keys : List KeyLine) {state : BlameState}
    (misled : Misled state) : Misled ((keys.map KeyLine.text).foldl (blameLine ctime) state) ∧
      ((keys.map KeyLine.text).foldl (blameLine ctime) state).records = state.records := by
  induction keys generalizing state with
  | nil => exact ⟨misled, rfl⟩
  | cons line keys ih =>
    obtain ⟨after, kept⟩ := misled_key ctime misled line
    obtain ⟨last, whole⟩ := ih after
    rw [kept] at whole
    exact ⟨last, whole⟩

/-- What the record of a group is in place of it. -/
structure Misread (group : BlameGroup) (record : GitBlame) : Prop where
  /-- It has no author. -/
  author : record.author.1 = []
  /-- It has a key word for the commit. -/
  commitId : record.commitId.1 ∈ lit "author" :: keyWords
  /-- It has the line. -/
  content : record.content = Field.copy group.content.1

/-- A hash is taken as a header. -/
theorem hash_header (group : BlameGroup) :
    group.hash.head?.any startsHash = true ∧ 32 ∉ group.hash := by
  have hex := List.all_eq_true.mp group.hash_hex
  constructor
  · have filled : group.hash ≠ [] := by
      have length := group.hash_length
      intro empty
      rw [empty, List.length_nil] at length
      omega
    obtain ⟨first, rest, same⟩ := List.exists_cons_of_ne_nil filled
    have byte := hex first (by rw [same]; exact List.mem_cons_self)
    rw [same]
    exact byte
  · intro blank
    exact absurd (hex 32 blank) (by decide)

/-- One group: its record is misread, and the next group finds no author. -/
theorem blame_group (ctime : Int → Option CString) (group : BlameGroup) {state : BlameState}
    (author : state.author.1 = []) : ∃ record, Misread group record ∧
      (group.lines.foldl (blameLine ctime) state).records = state.records ++ [record] ∧
      (group.lines.foldl (blameLine ctime) state).author.1 = [] := by
  obtain ⟨begins, solid⟩ := hash_header group
  have header := blameLine_header ctime state (decimal group.orig ++ 32 :: (decimal group.final ++
    (group.num.map fun num => 32 :: decimal num).getD [])) begins solid
  have unset : (blameLine ctime state group.header).author.1 = [] := by
    rw [BlameGroup.header, header]
    exact author
  obtain ⟨named, kept⟩ := misled_header ctime group.author.1
    (List.mem_cons_self : lit "author" ∈ lit "author" :: keyWords) (by decide) unset
  obtain ⟨misled, records⟩ := misled_keys ctime group.keys named
  have before : state.records = (blameLine ctime state group.header).records := by
    rw [BlameGroup.header, header]
  have line : lit "author " ++ group.author.1 = lit "author" ++ 32 :: group.author.1 := rfl
  rw [kept, ← before] at records
  rw [BlameGroup.lines, List.foldl_cons, List.foldl_cons, List.foldl_append, line]
  generalize (group.keys.map KeyLine.text).foldl (blameLine ctime) _ = last at misled records
  have tab : (9 :: group.content.1).head?.any startsHash = false := by
    show startsHash 9 = false
    decide
  have ended := blameLine_ended ctime last tab
  refine ⟨last.record group.content.1, ⟨misled.author, misled.hash, rfl⟩, ?_, ?_⟩
  · rw [List.foldl_cons, List.foldl_nil, ended, ← records]
    rfl
  · rw [List.foldl_cons, List.foldl_nil, ended]
    rfl

/-- Every record of an output is misread, in order. -/
theorem blame_groups (ctime : Int → Option CString) (groups : List BlameGroup)
    {state : BlameState} (author : state.author.1 = []) : ∃ records,
      List.Forall₂ Misread groups records ∧
      ((groups.flatMap BlameGroup.lines).foldl (blameLine ctime) state).records =
        state.records ++ records := by
  induction groups generalizing state with
  | nil => exact ⟨[], .nil, by simp⟩
  | cons group groups ih =>
    obtain ⟨record, misread, added, next⟩ := blame_group ctime group author
    obtain ⟨records, others, whole⟩ := ih next
    refine ⟨record :: records, .cons misread others, ?_⟩
    rw [List.flatMap_cons, List.foldl_append, whole, added, List.append_assoc,
      List.singleton_append]

/-! ## What git prints has no other line ends -/

/-- Neither a NUL nor a newline. -/
def Plain (text : CString) : Prop := ∀ byte ∈ text, byte ≠ 0 ∧ byte ≠ newline

/-- Texts one after another. -/
theorem plain_append {front back : CString} (first : Plain front) (second : Plain back) :
    Plain (front ++ back) := by
  intro byte found
  exact (List.mem_append.mp found).elim (first byte) (second byte)

/-- One more byte in front. -/
theorem plain_cons {byte : UInt8} {text : CString} (zero : byte ≠ 0) (feed : byte ≠ newline)
    (later : Plain text) : Plain (byte :: text) := by
  intro other found
  rcases List.mem_cons.mp found with rfl | inside
  · exact ⟨zero, feed⟩
  · exact later other inside

/-- A number has digits only. -/
theorem plain_decimal (value : Nat) : Plain (decimal value) := by
  intro byte found
  have digit := decimal_digits value byte found
  constructor <;> (rintro rfl; exact absurd digit (by decide))

/-- The lines of a group. -/
theorem plain_lines (group : BlameGroup) : ∀ line ∈ group.lines, Plain line := by
  have hash : Plain group.hash := by
    intro byte found
    have hex := List.all_eq_true.mp group.hash_hex byte found
    constructor <;> (rintro rfl; exact absurd hex (by decide))
  have num : Plain ((group.num.map fun num => 32 :: decimal num).getD []) := by
    cases group.num with
    | none => exact fun _ none => absurd none List.not_mem_nil
    | some num => exact plain_cons (by decide) (by decide) (plain_decimal num)
  have header : Plain group.header := by
    apply plain_append hash
    apply plain_cons (by decide) (by decide)
    apply plain_append (plain_decimal group.orig)
    apply plain_cons (by decide) (by decide)
    exact plain_append (plain_decimal group.final) num
  have word (key : CString) (known : key ∈ lit "author" :: keyWords) : Plain key := by
    obtain ⟨-, feed, zero, -⟩ := keyWords_kind known
    exact fun byte found => ⟨fun same => zero (same ▸ found), fun same => feed (same ▸ found)⟩
  intro line found
  rw [BlameGroup.lines, List.mem_cons, List.mem_cons, List.mem_append, List.mem_map,
    List.mem_singleton] at found
  rcases found with rfl | rfl | ⟨key, -, rfl⟩ | rfl
  · exact header
  · show Plain (lit "author" ++ 32 :: group.author.1)
    exact plain_append (word _ List.mem_cons_self)
      (plain_cons (by decide) (by decide) group.author.2)
  · apply plain_append (word _ (List.mem_cons_of_mem _ key.known))
    cases key.value with
    | none => exact fun _ none => absurd none List.not_mem_nil
    | some value => exact plain_cons (by decide) (by decide) value.2
  · exact plain_cons (by decide) (by decide) group.content.2

/-- The records of an output. -/
theorem blameRecords_porcelain (ctime : Int → Option CString) (groups : List BlameGroup) :
    List.Forall₂ Misread groups (blameRecords ctime (bufferText (porcelain groups))) := by
  have lines : ∀ line ∈ groups.flatMap BlameGroup.lines, Plain line := by
    intro line found
    obtain ⟨group, -, inside⟩ := List.mem_flatMap.mp found
    exact plain_lines group line inside
  have zero : (0 : UInt8) ∉ porcelain groups := by
    intro found
    obtain ⟨line, listed, inside⟩ := List.mem_flatMap.mp found
    rcases List.mem_append.mp inside with text | feed
    · exact (lines line listed 0 text).1 rfl
    · exact absurd (List.mem_singleton.mp feed) (by decide)
  have unset : BlameState.start.author.1 = [] := rfl
  obtain ⟨records, misread, whole⟩ := blame_groups ctime groups unset
  rw [bufferText_eq zero, blameRecords, porcelain,
    linesFrom_flatMap _ fun line listed feed => (lines line listed newline feed).2 rfl, whole]
  exact misread

/-- The records are the ones asked for only when the file has no lines. -/
theorem gitOpsBlame_records_iff (context : GitContext) (host : Host)
    (ctime : Int → Option CString) (world : World) (file : CString) (groups : List BlameGroup)
    (ran : host.popen (fullCommand context.repoPath.1 (blameCommand file)) =
      some ⟨porcelain groups, 0⟩) :
    (gitOpsBlame context host ctime world (some file)).2.map GitBlame.shown = wanted 1 groups ↔
      groups = [] := by
  have records : (gitOpsBlame context host ctime world (some file)).2 =
      blameRecords ctime (bufferText (porcelain groups)) := by
    simp [gitOpsBlame, gitExec, ran, resultOf, Option.filter]
  have misread := blameRecords_porcelain ctime groups
  rw [records]
  constructor
  · intro same
    cases groups with
    | nil => rfl
    | cons group groups =>
      generalize blameRecords ctime _ = records at same misread
      cases misread with
      | cons first others =>
        rename_i record records
        rw [List.map_cons, wanted, List.cons.injEq] at same
        have commit : record.commitId.1 = group.hash := congrArg (·.2.1) same.1
        obtain ⟨-, -, -, -, letters, -⟩ := keyWords_kind first.commitId
        rw [commit, group.hash_hex] at letters
        cases letters
  · rintro rfl
    cases read : blameRecords ctime (bufferText (porcelain [])) with
    | nil => rfl
    | cons record records =>
      rw [read] at misread
      cases misread

/-! ## A file of one line -/

/-- What git prints for it. -/
def sampleGroup : BlameGroup where
  hash := lit "83baae61804e65cc73a7201a7252750c76066a30"
  hash_hex := by decide +kernel
  hash_length := by decide +kernel
  orig := 1
  final := 1
  num := some 1
  author := ⟨lit "Ann", by decide +kernel⟩
  keys :=
    [⟨lit "author-mail", some ⟨lit "<ann@host>", by decide +kernel⟩, by decide +kernel⟩,
      ⟨lit "author-time", some ⟨lit "1700000000", by decide +kernel⟩, by decide +kernel⟩,
      ⟨lit "author-tz", some ⟨lit "+0000", by decide +kernel⟩, by decide +kernel⟩,
      ⟨lit "committer", some ⟨lit "Ann", by decide +kernel⟩, by decide +kernel⟩,
      ⟨lit "committer-mail", some ⟨lit "<ann@host>", by decide +kernel⟩, by decide +kernel⟩,
      ⟨lit "committer-time", some ⟨lit "1700000000", by decide +kernel⟩, by decide +kernel⟩,
      ⟨lit "committer-tz", some ⟨lit "+0000", by decide +kernel⟩, by decide +kernel⟩,
      ⟨lit "summary", some ⟨lit "first", by decide +kernel⟩, by decide +kernel⟩,
      ⟨lit "boundary", none, by decide +kernel⟩,
      ⟨lit "filename", some ⟨lit "a.c", by decide +kernel⟩, by decide +kernel⟩]
  content := ⟨lit "int x;", by decide +kernel⟩

/-- A repository in which git prints it. -/
def sampleContext : GitContext := ⟨Field.copy (lit "/r"), Field.copy (lit "/a")⟩

/-- The system there. -/
def sampleHost : Host where
  now := 0
  auditDir := true
  logOpens := true
  popen _ := some ⟨porcelain [sampleGroup], 0⟩

/-- The only record has the number 10, the commit `filename` and no author. -/
theorem authors_lost :
    (gitOpsBlame sampleContext sampleHost (fun _ => none) ⟨none, []⟩ (some (lit "a.c"))).2.map
        GitBlame.shown = [(10, lit "filename", [], lit "int x;")] ∧
      (gitOpsBlame sampleContext sampleHost (fun _ => none) ⟨none, []⟩ (some (lit "a.c"))).2.map
        GitBlame.shown ≠ wanted 1 [sampleGroup] := by
  decide +kernel

/-- The theorem there. -/
theorem gitOpsBlame_records_iff_sample :
    (gitOpsBlame sampleContext sampleHost (fun _ => none) ⟨none, []⟩ (some (lit "a.c"))).2.map
        GitBlame.shown = wanted 1 [sampleGroup] ↔ [sampleGroup] = [] :=
  gitOpsBlame_records_iff sampleContext sampleHost (fun _ => none) ⟨none, []⟩ (lit "a.c")
    [sampleGroup] rfl

end HwrunOs.Git
