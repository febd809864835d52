import HwrunOs.Library.Bytes

/-!
# Reading a shell command

The token rules of the POSIX shell: quoting, words, operators, and the bytes that stay special
between double quotes. What an expansion comes to depends on the shell and its parameters, so
a `Shell` is its expansions. Outside quotes the reading stops at the bytes it does not cover:
expansions, patterns, tildes and comments.
-/

namespace HwrunOs.Shells

open HwrunOs.Bytes

/-- A token of a command. The quotes of a word are removed. -/
inductive Token where
  /-- A word. -/
  | word (bytes : CString)
  /-- Digits directly before `<` or `>`. -/
  | ioNumber (bytes : CString)
  /-- An operator. -/
  | operator (bytes : CString)
deriving DecidableEq

/-- What an expansion comes to. -/
structure Expansion where
  /-- The bytes in its place. -/
  value : CString
  /-- How many bytes of the text it takes after the first. -/
  taken : Nat
  /-- The commands that are run for it. -/
  ran : List CString

/-- A shell: what it makes of the expansion at the front of a text, or `none` when it gives up. -/
structure Shell where
  /-- The expansion between double quotes. -/
  expand : CString → Option Expansion

/-- A byte that makes a dollar sign before it special: part of a name, a digit, a special
parameter, or an opening brace or parenthesis. -/
def startsExpansion (byte : UInt8) : Bool :=
  isDigit byte || (65 ≤ byte && byte ≤ 90) || (97 ≤ byte && byte ≤ 122) || byte == 95 ||
    [123, 40, 64, 42, 35, 63, 45, 36, 33].contains byte

/-- A backquote, or a dollar sign before such a byte. Any other dollar sign stands for itself. -/
def introduces (byte : UInt8) (next : Option UInt8) : Bool :=
  byte == 96 || (byte == 36 && next.any startsExpansion)

/-- A text no part of which is an expansion between double quotes. -/
def standsForItself : CString → Bool
  | [] => true
  | byte :: rest => !introduces byte rest.head? && standsForItself rest

/-- A text between double quotes with its quotes and backslashes escaped. -/
def escapeQuoted (text : CString) : CString :=
  text.flatMap fun byte => if byte == 34 || byte == 92 then [92, byte] else [byte]

/-! ## Tokens -/

/-- Where a reading stands. -/
inductive Mode where
  /-- Outside quotes. -/
  | bare
  /-- After a backslash outside quotes. -/
  | escape
  /-- Between single quotes. -/
  | single
  /-- Between double quotes, with some bytes left of an expansion. -/
  | double (taken : Nat)
  /-- After a backslash between double quotes. -/
  | doubleEscape
deriving DecidableEq

/-- The token that is being read. -/
inductive Current where
  /-- Between tokens. -/
  | none
  /-- A word, and whether part of it is quoted. -/
  | word (bytes : CString) (quoted : Bool)
  /-- An operator. -/
  | operator (bytes : CString)
deriving DecidableEq

/-- The token, when it ends. -/
def Current.tokens : Current → List Token
  | .none => []
  | .word bytes _ => [.word bytes]
  | .operator bytes => [.operator bytes]

/-- The token, when a redirection follows it directly. -/
def Current.beforeRedirection : Current → List Token
  | .word bytes false => if bytes.all isDigit then [.ioNumber bytes] else [.word bytes]
  | current => current.tokens

/-- The state of a reading. -/
structure Reading where
  /-- Where it stands. -/
  mode : Mode
  /-- The token that is being read. -/
  current : Current
  /-- The tokens before it. -/
  tokens : List Token
  /-- The commands run for expansions. -/
  ran : List CString

/-- The operators: `& | ; < > ( )`, the line feed, `&& || ;; << >> <& >& <> >| <<-`. -/
def operators : List CString :=
  [[38], [124], [59], [60], [62], [40], [41], [10], [38, 38], [124, 124], [59, 59], [60, 60],
    [62, 62], [60, 38], [62, 38], [60, 62], [62, 124], [60, 60, 45]]

/-- The bytes outside quotes that the reading does not cover: `$ * ? [ ~ #` and the backquote. -/
def uncovered : List UInt8 := [36, 96, 42, 63, 91, 126, 35]

namespace Reading

/-- Before the first byte. -/
def start : Reading := ⟨.bare, .none, [], []⟩

/-- The token that is being read ends. -/
def delimit (reading : Reading) : Reading :=
  { reading with current := .none, tokens := reading.tokens ++ reading.current.tokens }

/-- Bytes are added to the word that is being read, or start one. -/
def push (reading : Reading) (bytes : CString) (quoted : Bool) : Reading :=
  match reading.current with
  | .word word already => { reading with current := .word (word ++ bytes) (already || quoted) }
  | _ => { reading.delimit with current := .word bytes quoted }

/-- An operator starts. -/
def startOperator (reading : Reading) (byte : UInt8) : Reading :=
  let before := if byte == 60 || byte == 62 then reading.current.beforeRedirection
    else reading.current.tokens
  { reading with current := .operator [byte], tokens := reading.tokens ++ before }

/-- The operator that a byte makes longer. -/
def longerOperator (reading : Reading) (byte : UInt8) : Option CString :=
  match reading.current with
  | .operator bytes =>
    if operators.contains (bytes ++ [byte]) then some (bytes ++ [byte]) else none
  | _ => none

/-- One byte outside quotes. -/
def bareByte (reading : Reading) (byte : UInt8) : Option Reading :=
  match reading.longerOperator byte with
  | some operator => some { reading with current := .operator operator }
  | none =>
    if byte == 92 then some { reading with mode := .escape }
    else if byte == 39 then some { reading.push [] true with mode := .single }
    else if byte == 34 then some { reading.push [] true with mode := .double 0 }
    else if uncovered.contains byte then none
    else if operators.contains [byte] then some (reading.startOperator byte)
    else if isBlank byte then some reading.delimit
    else some (reading.push [byte] false)

end Reading

/-- What a backslash between double quotes and the byte after it stand for. -/
def escapedBytes (byte : UInt8) : CString :=
  if byte == newline then []
  else if byte == 36 || byte == 96 || byte == 34 || byte == 92 then [byte]
  else [92, byte]

/-- One byte of a command, with the text after it. -/
def Shell.step (shell : Shell) (reading : Reading) (byte : UInt8) (rest : CString) :
    Option Reading :=
  match reading.mode with
  | .bare => reading.bareByte byte
  | .escape =>
    if byte == newline then some { reading with mode := .bare }
    else some { reading.push [byte] true with mode := .bare }
  | .single =>
    if byte == 39 then some { reading with mode := .bare } else some (reading.push [byte] true)
  | .double (taken + 1) => some { reading with mode := .double taken }
  | .double 0 =>
    if byte == 34 then some { reading with mode := .bare }
    else if byte == 92 then some { reading with mode := .doubleEscape }
    else if introduces byte rest.head? then
      (shell.expand (byte :: rest)).map fun expansion =>
        { reading.push expansion.value true with
          mode := .double expansion.taken, ran := reading.ran ++ expansion.ran }
    else some (reading.push [byte] true)
  | .doubleEscape => some { reading.push (escapedBytes byte) true with mode := .double 0 }

/-- The tokens of the rest of a command, and the commands run for its expansions. -/
def Shell.read (shell : Shell) (reading : Reading) : CString → Option (List Token × List CString)
  | [] => if reading.mode = .bare then some (reading.delimit.tokens, reading.ran) else none
  | byte :: rest => (shell.step reading byte rest).bind fun next => shell.read next rest

/-- The tokens of a command, and the commands run for its expansions. `none`: it is not run. -/
def Shell.tokens (shell : Shell) (command : CString) : Option (List Token × List CString) :=
  shell.read .start command

/-! ## Text that stands for itself -/

/-- A quote or a backslash is escaped. -/
theorem escapeQuoted_special {byte : UInt8} (special : byte = 34 ∨ byte = 92) (rest : CString) :
    escapeQuoted (byte :: rest) = 92 :: byte :: escapeQuoted rest := by
  simp [escapeQuoted, special]

/-- Any other byte is copied. -/
theorem escapeQuoted_usual {byte : UInt8} (usual : ¬ (byte = 34 ∨ byte = 92)) (rest : CString) :
    escapeQuoted (byte :: rest) = byte :: escapeQuoted rest := by
  simp [escapeQuoted, usual]

/-- What makes a dollar sign special is no quote and no backslash. -/
theorem introduces_escaped (byte : UInt8) (text after : CString) :
    introduces byte (escapeQuoted text ++ 34 :: after).head? = introduces byte text.head? := by
  have quote : startsExpansion 34 = false := by decide
  have slash : startsExpansion 92 = false := by decide
  unfold introduces
  congr 2
  cases text with
  | nil => exact quote
  | cons first rest =>
    show (escapeQuoted (first :: rest) ++ 34 :: after).head?.any _ = startsExpansion first
    by_cases escaped : first = 34 ∨ first = 92
    · rw [escapeQuoted_special escaped]
      rcases escaped with rfl | rfl
      · exact slash.trans quote.symm
      · rfl
    · rw [escapeQuoted_usual escaped]
      rfl

namespace Reading

/-- A reading between double quotes, inside a word. -/
def quoted (tokens : List Token) (word : CString) (ran : List CString) : Reading :=
  ⟨.double 0, .word word true, tokens, ran⟩

end Reading

open Reading

/-- An escaped byte is read as itself. -/
theorem read_escaped (shell : Shell) (tokens : List Token) (word : CString) (ran : List CString)
    {byte : UInt8} (special : byte = 34 ∨ byte = 92) (rest : CString) :
    shell.read (quoted tokens word ran) (92 :: byte :: rest) =
      shell.read (quoted tokens (word ++ [byte]) ran) rest := by
  rcases special with rfl | rfl
  · rfl
  · rfl

/-- A byte that is neither escaped nor part of an expansion is read as itself. -/
theorem read_plain (shell : Shell) (tokens : List Token) (word : CString) (ran : List CString)
    {byte : UInt8} (usual : ¬ (byte = 34 ∨ byte = 92)) (rest : CString)
    (plain : introduces byte rest.head? = false) :
    shell.read (quoted tokens word ran) (byte :: rest) =
      shell.read (quoted tokens (word ++ [byte]) ran) rest := by
  obtain ⟨quote, slash⟩ := not_or.mp usual
  have stepped : shell.step (quoted tokens word ran) byte rest =
      some (quoted tokens (word ++ [byte]) ran) := by
    show (if byte == 34 then _ else if byte == 92 then _ else if introduces byte rest.head? then _
      else _) = _
    rw [if_neg (by simpa using quote), if_neg (by simpa using slash), plain]
    rfl
  rw [Shell.read, stepped]
  rfl

/-- An escaped text that stands for itself is read as itself. -/
theorem read_text (shell : Shell) (tokens : List Token) (ran : List CString) (text : CString)
    (plain : standsForItself text = true) (word after : CString) :
    shell.read (quoted tokens word ran) (escapeQuoted text ++ 34 :: after) =
      shell.read (quoted tokens (word ++ text) ran) (34 :: after) := by
  induction text generalizing word with
  | nil => rw [List.append_nil]; rfl
  | cons byte rest ih =>
    have parts : introduces byte rest.head? = false ∧ standsForItself rest = true := by
      simpa [standsForItself] using plain
    have grown : word ++ byte :: rest = word ++ [byte] ++ rest := by simp
    rw [grown, ← ih parts.2]
    by_cases special : byte = 34 ∨ byte = 92
    · rw [escapeQuoted_special special]
      exact read_escaped shell tokens word ran special _
    · have still := introduces_escaped byte rest after
      rw [escapeQuoted_usual special]
      exact read_plain shell tokens word ran special _ (still.trans parts.1)

/-! ## Single quotes -/

/-- What stands for a byte between single quotes: a quote ends them, is escaped, and starts new
ones. -/
def singleByte (byte : UInt8) : CString := if byte == 39 then [39, 92, 39, 39] else [byte]

/-- A text between single quotes. -/
def singleQuoted (text : CString) : CString := text.flatMap singleByte

/-- Texts one after another. -/
theorem singleQuoted_append (front back : CString) :
    singleQuoted (front ++ back) = singleQuoted front ++ singleQuoted back :=
  List.flatMap_append

/-- Every byte takes one byte or four. -/
theorem singleByte_length (byte : UInt8) :
    1 ≤ (singleByte byte).length ∧ (singleByte byte).length ≤ 4 := by
  unfold singleByte
  split
  · exact ⟨by decide, by decide⟩
  · exact ⟨Nat.le_refl 1, Nat.le_add_left 1 3⟩

/-- One byte of a single-quoted text is read as itself. -/
theorem read_singleByte (shell : Shell) (tokens : List Token) (ran : List CString)
    (word : CString) (byte : UInt8) (after : CString) :
    shell.read ⟨.single, .word word true, tokens, ran⟩ (singleByte byte ++ after) =
      shell.read ⟨.single, .word (word ++ [byte]) true, tokens, ran⟩ after := by
  by_cases quote : byte = 39
  · subst quote
    -- Between the quotes that end and start again stands the escaped one.
    show shell.read ⟨.single, .word (word ++ [39] ++ []) true, tokens, ran⟩ after = _
    rw [List.append_nil]
  · have alone : singleByte byte = [byte] := if_neg (by simpa using quote)
    have stepped : shell.step ⟨.single, .word word true, tokens, ran⟩ byte after =
        some ⟨.single, .word (word ++ [byte]) true, tokens, ran⟩ := by
      show (if byte == 39 then _ else _) = _
      rw [if_neg (by simpa using quote)]
      rfl
    rw [alone, List.singleton_append, Shell.read, stepped]
    rfl

/-- A single-quoted text is read as itself. -/
theorem read_singleQuoted (shell : Shell) (tokens : List Token) (ran : List CString)
    (text word after : CString) :
    shell.read ⟨.single, .word word true, tokens, ran⟩ (singleQuoted text ++ after) =
      shell.read ⟨.single, .word (word ++ text) true, tokens, ran⟩ after := by
  induction text generalizing word with
  | nil => rw [List.append_nil]; rfl
  | cons byte text ih =>
    have first := read_singleByte shell tokens ran word byte (singleQuoted text ++ after)
    have shape : singleQuoted (byte :: text) = singleByte byte ++ singleQuoted text := rfl
    rw [shape, List.append_assoc, first, ih, List.append_assoc, List.singleton_append]

/-- Between its quotes it is one word, in every shell. -/
theorem tokens_singleQuoted (shell : Shell) (text : CString) :
    shell.tokens (39 :: (singleQuoted text ++ [39])) = some ([.word text], []) := by
  have inside := read_singleQuoted shell [] [] text [] [39]
  show shell.read ⟨.single, .word [] true, [], []⟩ (singleQuoted text ++ [39]) = _
  rw [inside]
  rfl

/-! ## Text with an expansion -/

/-- The dollar signs and backquotes of a text. -/
def marks (text : CString) : Nat := text.countP fun byte => byte == 36 || byte == 96

/-- The dollar signs and backquotes of a token. -/
def Token.marks : Token → Nat
  | .word bytes | .ioNumber bytes | .operator bytes => Shells.marks bytes

/-- The dollar signs and backquotes of some tokens. -/
def tokenMarks (tokens : List Token) : Nat := (tokens.map Token.marks).foldr (· + ·) 0

/-- An expansion for which no command is run has fewer dollar signs and backquotes than its
text: it takes away the one that introduces it, and the parameters of the shell hold none. -/
def Shell.TakesAway (shell : Shell) : Prop :=
  ∀ text expansion, shell.expand text = some expansion → expansion.ran = [] →
    marks expansion.value < marks (text.take (expansion.taken + 1))

/-- Marks of an append. -/
@[simp] theorem marks_append (front back : CString) :
    marks (front ++ back) = marks front + marks back := List.countP_append

/-- Marks of a text, by its first byte. -/
theorem marks_cons (byte : UInt8) (rest : CString) :
    marks (byte :: rest) = marks [byte] + marks rest := marks_append [byte] rest

/-- Marks of no tokens. -/
@[simp] theorem tokenMarks_nil : tokenMarks [] = 0 := rfl

/-- Marks of tokens, by the first. -/
@[simp] theorem tokenMarks_cons (token : Token) (rest : List Token) :
    tokenMarks (token :: rest) = token.marks + tokenMarks rest := rfl

/-- Marks of tokens in two parts. -/
@[simp] theorem tokenMarks_append (front back : List Token) :
    tokenMarks (front ++ back) = tokenMarks front + tokenMarks back := by
  induction front with
  | nil => simp
  | cons token rest ih =>
    simp only [List.cons_append, tokenMarks_cons, ih]
    omega

/-- The token before a redirection has the marks of the word. -/
theorem beforeRedirection_marks (current : Current) :
    tokenMarks current.beforeRedirection = tokenMarks current.tokens := by
  unfold Current.beforeRedirection
  split
  · split
    · rfl
    · rfl
  · rfl

namespace Reading

/-- The dollar signs and backquotes read so far. -/
def marks (reading : Reading) : Nat :=
  tokenMarks reading.tokens + tokenMarks reading.current.tokens

/-- How many bytes of the text belong to an expansion that is already made. -/
def skipped (reading : Reading) : Nat :=
  match reading.mode with
  | .double taken => taken
  | _ => 0

/-- The end of a token leaves the marks. -/
@[simp] theorem delimit_marks (reading : Reading) : reading.delimit.marks = reading.marks := by
  simp [delimit, marks, Current.tokens]

/-- A word gets the marks of the bytes added to it. -/
@[simp] theorem push_marks (reading : Reading) (bytes : CString) (quoted : Bool) :
    (reading.push bytes quoted).marks = reading.marks + Shells.marks bytes := by
  obtain ⟨mode, current, tokens, ran⟩ := reading
  cases current with
  | none => simp [push, delimit, marks, Current.tokens, Token.marks]
  | word word already =>
    simp only [push, marks, Current.tokens, tokenMarks_cons, Token.marks, marks_append]
    omega
  | operator operator =>
    simp only [push, delimit, marks, Current.tokens, tokenMarks_append, tokenMarks_cons,
      tokenMarks_nil, Token.marks]
    omega

/-- A byte added to a word leaves the mode. -/
@[simp] theorem push_mode (reading : Reading) (bytes : CString) (quoted : Bool) :
    (reading.push bytes quoted).mode = reading.mode := by
  unfold push
  split <;> rfl

/-- A byte added to a word runs nothing. -/
@[simp] theorem push_ran (reading : Reading) (bytes : CString) (quoted : Bool) :
    (reading.push bytes quoted).ran = reading.ran := by
  unfold push
  split <;> rfl

/-- An operator adds its own byte. -/
theorem startOperator_marks (reading : Reading) (byte : UInt8) :
    (reading.startOperator byte).marks = reading.marks + Shells.marks [byte] := by
  have before : tokenMarks (if byte == 60 || byte == 62 then reading.current.beforeRedirection
      else reading.current.tokens) = tokenMarks reading.current.tokens := by
    split
    · exact beforeRedirection_marks _
    · rfl
  show tokenMarks (reading.tokens ++ _) + (Shells.marks [byte] + 0) = _
  rw [tokenMarks_append, before]
  rfl

/-- A longer operator is the operator with the byte. -/
theorem longerOperator_eq {reading : Reading} {byte : UInt8} {operator : CString}
    (longer : reading.longerOperator byte = some operator) :
    ∃ bytes, reading.current = .operator bytes ∧ operator = bytes ++ [byte] := by
  unfold longerOperator at longer
  split at longer
  next bytes current =>
    split at longer
    · exact ⟨bytes, current, (Option.some.inj longer).symm⟩
    · cases longer
  next => cases longer

/-- What a byte does that runs nothing: it adds at most its own marks, and takes no more. -/
structure Quiet (reading next : Reading) (byte : UInt8) : Prop where
  /-- Nothing is run. -/
  ran : next.ran = reading.ran
  /-- The bytes after it are left to read. -/
  skipped : next.skipped = 0
  /-- The marks are those read before, and the byte's at most. -/
  counted : next.marks ≤ reading.marks + Shells.marks [byte]

/-- A byte that is added to a word. -/
theorem push_quiet (reading : Reading) {byte : UInt8} {bytes : CString} {quoted : Bool}
    {mode : Mode} (few : Shells.marks bytes ≤ Shells.marks [byte])
    (still : ({ reading.push bytes quoted with mode } : Reading).skipped = 0) :
    Quiet reading { reading.push bytes quoted with mode } byte where
  ran := push_ran reading bytes quoted
  skipped := still
  counted := by
    have pushed := push_marks reading bytes quoted
    show (reading.push bytes quoted).marks ≤ _
    omega

/-- A byte that only changes the mode. -/
theorem mode_quiet (reading : Reading) (byte : UInt8) {mode : Mode}
    (still : ({ reading with mode } : Reading).skipped = 0) :
    Quiet reading { reading with mode } byte :=
  ⟨rfl, still, Nat.le_add_right _ _⟩

/-- A byte outside quotes. -/
theorem bareByte_quiet {reading next : Reading} {byte : UInt8} (bare : reading.mode = .bare)
    (stepped : reading.bareByte byte = some next) : Quiet reading next byte := by
  have still {other : Reading} (same : other.mode = reading.mode) : other.skipped = 0 := by
    rw [skipped, same, bare]
  unfold bareByte at stepped
  split at stepped
  next operator longer =>
    obtain ⟨bytes, current, rfl⟩ := longerOperator_eq longer
    cases stepped
    refine ⟨rfl, still rfl, ?_⟩
    simp only [marks, current, Current.tokens, tokenMarks_cons, tokenMarks_nil, Token.marks,
      marks_append]
    omega
  next =>
    split at stepped
    next => cases stepped; exact mode_quiet reading byte rfl
    split at stepped
    next => cases stepped; exact push_quiet reading (Nat.zero_le _) rfl
    split at stepped
    next => cases stepped; exact push_quiet reading (Nat.zero_le _) rfl
    split at stepped
    next => cases stepped
    split at stepped
    next => cases stepped; exact ⟨rfl, still rfl, (startOperator_marks reading byte).le⟩
    split at stepped
    next =>
      cases stepped
      exact ⟨rfl, still rfl, (delimit_marks reading).le.trans (Nat.le_add_right _ _)⟩
    next =>
      cases stepped
      exact ⟨push_ran _ _ _, still (push_mode _ _ _), (push_marks _ _ _).le⟩

end Reading

/-- The bytes that an escape stands for have no more marks than the byte after the backslash. -/
theorem escapedBytes_marks (byte : UInt8) : marks (escapedBytes byte) ≤ marks [byte] := by
  unfold escapedBytes
  split
  next => exact Nat.zero_le _
  split
  next => exact le_rfl
  next =>
    have slash : marks [92] = 0 := rfl
    rw [marks_cons 92 [byte], slash]
    omega

/-- A quiet byte does not make the marks read and left to read grow. -/
theorem quiet_total {reading next : Reading} {byte : UInt8} (rest : CString)
    (quiet : Quiet reading next byte) (whole : reading.skipped = 0) :
    reading.ran <+: next.ran ∧ next.marks + marks (rest.drop next.skipped) ≤
      reading.marks + marks ((byte :: rest).drop reading.skipped) := by
  have counted := quiet.counted
  rw [quiet.skipped, whole, quiet.ran, List.drop_zero, List.drop_zero, marks_cons byte rest]
  exact ⟨List.prefix_rfl, by omega⟩

/-- An expansion for which nothing is run takes marks away. -/
theorem expand_marks {shell : Shell} (takes : shell.TakesAway) {text : CString}
    {expansion : Expansion} (expanded : shell.expand text = some expansion)
    (silent : expansion.ran = []) :
    marks expansion.value + marks (text.drop (expansion.taken + 1)) < marks text := by
  have fewer := takes text expansion expanded silent
  have parts : marks (text.take (expansion.taken + 1)) + marks (text.drop (expansion.taken + 1)) =
      marks text := by
    rw [← marks_append, List.take_append_drop]
  omega

/-- What one byte does: the marks read and left to read do not grow, unless a command is run. -/
theorem step_marks {shell : Shell} (takes : shell.TakesAway) {reading next : Reading}
    {byte : UInt8} {rest : CString} (stepped : shell.step reading byte rest = some next) :
    reading.ran <+: next.ran ∧ (next.ran = [] →
      next.marks + marks (rest.drop next.skipped) ≤
        reading.marks + marks ((byte :: rest).drop reading.skipped)) := by
  have quietly (quiet : Reading.Quiet reading next byte) (whole : reading.skipped = 0) :=
    And.imp_right (fun fewer (_ : next.ran = []) => fewer) (quiet_total rest quiet whole)
  unfold Shell.step at stepped
  split at stepped
  next bare => exact quietly (bareByte_quiet bare stepped) (by rw [Reading.skipped, bare])
  next mode =>
    have whole : reading.skipped = 0 := by rw [Reading.skipped, mode]
    split at stepped
    next => cases stepped; exact quietly (mode_quiet reading byte rfl) whole
    next => cases stepped; exact quietly (push_quiet reading le_rfl rfl) whole
  next mode =>
    have whole : reading.skipped = 0 := by rw [Reading.skipped, mode]
    split at stepped
    next => cases stepped; exact quietly (mode_quiet reading byte rfl) whole
    next =>
      cases stepped
      refine quietly ⟨push_ran _ _ _, ?_, (push_marks _ _ _).le⟩ whole
      rw [Reading.skipped, push_mode, mode]
  next taken mode =>
    cases stepped
    have skipped : reading.skipped = taken + 1 := by rw [Reading.skipped, mode]
    rw [skipped]
    exact ⟨List.prefix_rfl, fun _ => le_rfl⟩
  next mode =>
    have whole : reading.skipped = 0 := by rw [Reading.skipped, mode]
    split at stepped
    next => cases stepped; exact quietly (mode_quiet reading byte rfl) whole
    split at stepped
    next => cases stepped; exact quietly (mode_quiet reading byte rfl) whole
    split at stepped
    next =>
      obtain ⟨expansion, expanded, rfl⟩ := Option.map_eq_some_iff.mp stepped
      refine ⟨List.prefix_append _ _, fun silent => ?_⟩
      have fewer := expand_marks takes expanded (List.append_eq_nil_iff.mp silent).2
      have pushed := push_marks reading expansion.value true
      rw [whole]
      show (reading.push expansion.value true).marks + marks (rest.drop expansion.taken) ≤
        reading.marks + marks (byte :: rest)
      rw [List.drop_succ_cons] at fewer
      omega
    next =>
      cases stepped
      refine quietly ⟨push_ran _ _ _, ?_, (push_marks _ _ _).le⟩ whole
      rw [Reading.skipped, push_mode, mode]
  next mode =>
    cases stepped
    exact quietly (push_quiet reading (escapedBytes_marks byte) rfl)
      (by rw [Reading.skipped, mode])

/-- A command's tokens have no more marks than the text, unless a command is run for them. -/
theorem read_marks {shell : Shell} (takes : shell.TakesAway) {reading : Reading} {text : CString}
    {tokens : List Token} {ran : List CString}
    (read : shell.read reading text = some (tokens, ran)) :
    reading.ran <+: ran ∧
      (ran = [] → tokenMarks tokens ≤ reading.marks + marks (text.drop reading.skipped)) := by
  induction text generalizing reading with
  | nil =>
    rw [Shell.read] at read
    split at read
    next =>
      cases read
      refine ⟨List.prefix_rfl, fun _ => ?_⟩
      have ended := delimit_marks reading
      simp only [Reading.marks, Reading.delimit, Current.tokens, tokenMarks_nil] at ended ⊢
      omega
    next => cases read
  | cons byte rest ih =>
    rw [Shell.read] at read
    obtain ⟨next, stepped, read⟩ := Option.bind_eq_some_iff.mp read
    obtain ⟨later, bound⟩ := ih read
    obtain ⟨now, step⟩ := step_marks takes stepped
    refine ⟨now.trans later, fun silent => ?_⟩
    have before : next.ran = [] := List.prefix_nil.mp (silent ▸ later)
    exact (bound silent).trans (step before)

/-- Escaping adds no marks, and neither does the quote at the end. -/
theorem marks_escaped (text after : CString) :
    marks (escapeQuoted text ++ 34 :: after) = marks text + marks after := by
  induction text with
  | nil => rw [show escapeQuoted [] ++ 34 :: after = 34 :: after from rfl, marks_cons]; rfl
  | cons byte rest ih =>
    have slash : marks [92] = 0 := rfl
    have whole := marks_cons byte rest
    by_cases special : byte = 34 ∨ byte = 92
    · rw [escapeQuoted_special special, List.cons_append, List.cons_append, marks_cons 92,
        marks_cons byte, ih]
      omega
    · rw [escapeQuoted_usual special, List.cons_append, marks_cons byte, ih]
      omega

/-- A text with an expansion loses marks, unless a command is run for it. -/
theorem read_expansion {shell : Shell} (takes : shell.TakesAway) {text : CString}
    (special : standsForItself text = false) (before : List Token) (word after : CString)
    {tokens : List Token}
    (read : shell.read (quoted before word []) (escapeQuoted text ++ 34 :: after) =
      some (tokens, [])) :
    tokenMarks tokens < tokenMarks before + marks word + marks text + marks after := by
  induction text generalizing word with
  | nil => cases special
  | cons byte rest ih =>
    have whole := marks_cons byte rest
    by_cases active : introduces byte rest.head? = true
    · have usual : ¬ (byte = 34 ∨ byte = 92) := by
        rintro (rfl | rfl)
        · cases active
        · cases active
      obtain ⟨quote, slash⟩ := not_or.mp usual
      have still := (introduces_escaped byte rest after).trans active
      rw [escapeQuoted_usual usual, List.cons_append, Shell.read] at read
      obtain ⟨next, stepped, read⟩ := Option.bind_eq_some_iff.mp read
      have expands : shell.step (quoted before word []) byte (escapeQuoted rest ++ 34 :: after) =
          (shell.expand (byte :: (escapeQuoted rest ++ 34 :: after))).map fun expansion =>
            { quoted before (word ++ expansion.value) [] with
              mode := .double expansion.taken, ran := expansion.ran } := by
        show (if byte == 34 then _ else if byte == 92 then _ else
          if introduces byte (escapeQuoted rest ++ 34 :: after).head? then _ else _) = _
        rw [if_neg (by simpa using quote), if_neg (by simpa using slash), if_pos still]
        rfl
      rw [expands] at stepped
      obtain ⟨expansion, expanded, rfl⟩ := Option.map_eq_some_iff.mp stepped
      obtain ⟨later, bound⟩ := read_marks takes read
      have silent : expansion.ran = [] := List.prefix_nil.mp later
      have fewer := expand_marks takes expanded silent
      have most := bound rfl
      have left : Reading.marks { quoted before (word ++ expansion.value) [] with
          mode := .double expansion.taken, ran := expansion.ran } =
          tokenMarks before + (marks (word ++ expansion.value) + 0) := rfl
      have skipped : Reading.skipped { quoted before (word ++ expansion.value) [] with
          mode := .double expansion.taken, ran := expansion.ran } = expansion.taken := rfl
      have after_ := marks_escaped rest after
      rw [left, skipped, marks_append] at most
      rw [List.drop_succ_cons, marks_cons] at fewer
      omega
    · have still : introduces byte rest.head? = false := by simpa using active
      have later : standsForItself rest = false := by
        simpa [standsForItself, still] using special
      have grown : marks (word ++ [byte]) = marks word + marks [byte] := marks_append _ _
      have fewer := ih later (word ++ [byte]) (by
        by_cases quoting : byte = 34 ∨ byte = 92
        · rw [escapeQuoted_special quoting] at read
          rw [← read]
          exact (read_escaped shell before word [] quoting _).symm
        · rw [escapeQuoted_usual quoting] at read
          rw [← read]
          exact (read_plain shell before word [] quoting _
            ((introduces_escaped byte rest after).trans still)).symm)
      omega

end HwrunOs.Shells
