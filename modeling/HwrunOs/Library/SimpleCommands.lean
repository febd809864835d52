import HwrunOs.Library.Shell

/-!
# The words of a simple command

What a shell makes of a command that is words only: quotes are removed, and the words stand apart
at unquoted blanks. Where the words depend on more than the text, by an expansion, a pattern or a
tilde, and where the text is no single simple command, there are none. A line that is continued
behind a backslash is not covered.
-/

namespace HwrunOs.SimpleCommands

open HwrunOs.Bytes HwrunOs.Shells

/-! ## Reading -/

/-- An opening bracket before this text begins a bracket expression. -/
def closesBracket (ahead : CString) : Bool :=
  ((if ahead.head? = some 33 then ahead.drop 1 else ahead).drop 1).contains 93

/-- An unquoted byte does not stand for itself before the rest of its word: it is an operator, or
begins an expansion or a pattern. -/
def special (byte : UInt8) (ahead : CString) : Bool :=
  operators.contains [byte] || byte == 42 || byte == 63 || introduces byte ahead.head? ||
    (byte == 91 && closesBracket ahead)

/-- Quotes and the backslash. -/
def quotes (byte : UInt8) : Bool := byte == 34 || byte == 39 || byte == 92

/-- The unquoted rest of a word. -/
def ahead (text : CString) : CString := text.takeWhile fun byte => !isBlank byte

/-- The words of the rest of a command, with the word that is being read. -/
def wordsFrom (mode : Mode) (word : Option CString) : CString → Option (List CString)
  | [] => if mode = .bare then some word.toList else none
  | byte :: rest =>
    match mode with
    | .bare =>
      if isBlank byte then (wordsFrom .bare none rest).map (word.toList ++ ·)
      else if byte = 92 then wordsFrom .escape word rest
      else if byte = 39 then wordsFrom .single (some (word.getD [])) rest
      else if byte = 34 then wordsFrom (.double 0) (some (word.getD [])) rest
      else if word = none ∧ byte = 35 then if newline ∈ rest then none else some []
      else if special byte (ahead rest) ∨ word = none ∧ byte = 126 then none
      else wordsFrom .bare (some (word.getD [] ++ [byte])) rest
    | .escape =>
      if byte = newline then none else wordsFrom .bare (some (word.getD [] ++ [byte])) rest
    | .single =>
      if byte = 39 then wordsFrom .bare word rest
      else wordsFrom .single (some (word.getD [] ++ [byte])) rest
    | .double _ =>
      if byte = 34 then wordsFrom .bare word rest
      else if byte = 92 then wordsFrom .doubleEscape word rest
      else if introduces byte rest.head? then none
      else wordsFrom (.double 0) (some (word.getD [] ++ [byte])) rest
    | .doubleEscape =>
      if byte = newline then none
      else wordsFrom (.double 0) (some (word.getD [] ++ escapedBytes byte)) rest

/-- The reserved words. -/
def reservedWords : List CString :=
  ["!", "\x7b", "\x7d", "case", "do", "done", "elif", "else", "esac", "fi", "for", "if", "in",
    "then", "until", "while"].map lit

/-- A byte of a name. -/
def isNameByte (byte : UInt8) : Bool :=
  isDigit byte || (65 ≤ byte && byte ≤ 90) || (97 ≤ byte && byte ≤ 122) || byte == 95

/-- A word that is an assignment: a name and an equals sign in front. -/
def assigns (word : CString) : Bool :=
  let name := word.takeWhile isNameByte
  !name.isEmpty && !name.head?.any isDigit && word[name.length]? == some 61

/-- A first word that is the name of a command. -/
def namesCommand (word : CString) : Bool := !reservedWords.contains word && !assigns word

/-- The words of a simple command, if they are the same in every shell. -/
def commandWords (text : CString) : Option (List CString) :=
  if namesCommand (ahead (text.dropWhile isBlank)) then wordsFrom .bare none text else none

example : commandWords (lit "printf 'a  b' \"c\\\"\"") =
    some [lit "printf", lit "a  b", lit "c\""] := by decide
example : commandWords (lit "ls *.c") = none := by decide

/-! ## Words that stand for themselves -/

/-- No byte of a text is a blank, quoting or special. -/
def plain : CString → Bool
  | [] => true
  | byte :: rest => !isBlank byte && !quotes byte && !special byte rest && plain rest

/-- A word that needs no quotes. -/
def StandsAlone (word : CString) : Bool :=
  word.head?.any (fun byte => byte != 35 && byte != 126) && plain word

/-- Words with a space before each. -/
def spaced (words : List CString) : CString := words.flatMap fun word => 32 :: word

/-- A word is behind its space. -/
theorem spaced_cons (word : CString) (rest : List CString) :
    spaced (word :: rest) = 32 :: (word ++ spaced rest) := by simp [spaced]

/-- What the word that is being read counts for: its bytes and a space. A backslash between double
quotes may stand for itself. -/
def weight (mode : Mode) (word : Option CString) : Nat :=
  (word.getD []).length + 1 + if mode = .doubleEscape then 1 else 0

/-- A byte between double quotes stands for at most two. -/
theorem escapedBytes_length (byte : UInt8) : (escapedBytes byte).length ≤ 2 := by
  unfold escapedBytes
  split
  · exact Nat.zero_le _
  · split
    · exact Nat.le_succ 1
    · exact le_rfl

/-- The words of a command are no longer than its text. -/
theorem wordsFrom_length {mode : Mode} {word : Option CString} {text : CString}
    {words : List CString} (read : wordsFrom mode word text = some words) :
    (spaced words).length ≤ weight mode word + text.length := by
  fun_induction wordsFrom mode word text generalizing words with
  | case2 | case7 | case9 | case11 | case17 | case19 => cases read
  | case1 word =>
    cases read
    cases word with
    | none => exact Nat.zero_le _
    | some word => simp [spaced, weight]
  | case3 word byte rest _ ih =>
    obtain ⟨later, inner, rfl⟩ := Option.map_eq_some_iff.mp read
    have bound := ih inner
    cases word with
    | none =>
      simp [weight] at bound ⊢
      omega
    | some word =>
      simp [spaced_cons, weight] at bound ⊢
      omega
  | case8 =>
    cases read
    exact Nat.zero_le _
  | case20 mode byte rest _ ih =>
    have bound := ih read
    have most := escapedBytes_length byte
    simp [weight] at bound ⊢
    omega
  | case4 | case5 | case6 | case10 | case12 | case13 | case14 | case15 | case16 | case18 =>
    rename_i ih
    have bound := ih read
    simp [weight] at bound ⊢
    omega

/-- The rest of a word ends at a blank. -/
theorem ahead_blank {byte : UInt8} (blank : isBlank byte = true) (rest : CString) :
    ahead (byte :: rest) = [] := by
  rw [ahead, List.takeWhile_cons_of_neg (by simp [blank])]

/-- The rest of a word goes on behind any other byte. -/
theorem ahead_solid {byte : UInt8} (solid : isBlank byte = false) (rest : CString) :
    ahead (byte :: rest) = byte :: ahead rest := by
  rw [ahead, List.takeWhile_cons_of_pos (by simp [solid])]
  rfl

/-- A plain text, by its first byte. -/
theorem plain_cons {byte : UInt8} {rest : CString} :
    plain (byte :: rest) = true ↔ isBlank byte = false ∧ quotes byte = false ∧
      special byte rest = false ∧ plain rest = true := by
  simp [plain, and_assoc]

/-- When the words of a command are as long as its text, they stand alone. -/
theorem wordsFrom_tight {word : Option CString} {text : CString} {words : List CString}
    (read : wordsFrom .bare word text = some words)
    (tight : (spaced words).length = weight .bare word + text.length) :
    (word = none → ∀ item ∈ words, StandsAlone item = true) ∧
      ∀ front, word = some front → plain (ahead text) = true ∧ ∃ later,
        words = (front ++ ahead text) :: later ∧ ∀ item ∈ later, StandsAlone item = true := by
  induction text generalizing word words with
  | nil =>
    cases read
    constructor
    · rintro rfl item listed
      cases listed
    · rintro front rfl
      exact ⟨rfl, [], by simp [ahead], fun item listed => nomatch listed⟩
  | cons byte rest ih =>
    rw [List.length_cons] at tight
    rw [wordsFrom] at read
    have loses {mode : Mode} {current : Option CString}
        (inner : wordsFrom mode current rest = some words)
        (same : weight mode current = weight .bare word) : False := by
      have bound := wordsFrom_length inner
      omega
    split at read
    next blank =>
      obtain ⟨later, inner, rfl⟩ := Option.map_eq_some_iff.mp read
      have bound := wordsFrom_length inner
      cases word with
      | none => exact (loses inner rfl).elim
      | some front =>
        refine ⟨nofun, ?_⟩
        rintro _ ⟨⟩
        rw [ahead_blank blank]
        refine ⟨rfl, later, by simp, (ih inner ?_).1 rfl⟩
        simp [spaced_cons, weight] at tight bound ⊢
        omega
    split at read
    next => exact (loses read (by simp [weight])).elim
    split at read
    next => exact (loses read (by simp [weight])).elim
    split at read
    next => exact (loses read (by simp [weight])).elim
    split at read
    next =>
      split at read
      · cases read
      · cases read
        simp [spaced, weight] at tight
    split at read
    next => cases read
    next blank slash single double sharp usual =>
      obtain ⟨-, grown⟩ := ih read (by simp [weight] at tight ⊢; omega)
      obtain ⟨behind, later, rfl, alone⟩ := grown _ rfl
      obtain ⟨ordinary, tilde⟩ := not_or.mp usual
      have solid := Bool.eq_false_iff.mpr blank
      have whole : plain (byte :: ahead rest) = true :=
        plain_cons.mpr ⟨solid, by simp [quotes, slash, single, double],
          Bool.eq_false_iff.mpr ordinary, behind⟩
      constructor
      · rintro rfl item listed
        rcases List.mem_cons.mp listed with rfl | listed
        · simp only [true_and] at sharp tilde
          simp [StandsAlone, whole, sharp, tilde]
        · exact alone item listed
      · rintro front rfl
        rw [ahead_solid solid]
        exact ⟨whole, later, by simp, alone⟩

/-- A plain text in front is part of the word. -/
theorem ahead_append {text : CString} (usual : plain text = true) (after : CString) :
    ahead (text ++ after) = text ++ ahead after := by
  induction text with
  | nil => rfl
  | cons byte rest ih =>
    obtain ⟨solid, -, -, behind⟩ := plain_cons.mp usual
    rw [List.cons_append, ahead_solid solid, ih behind, List.cons_append]

/-- A byte that stands for itself is added to its word. -/
theorem wordsFrom_byte {byte : UInt8} {rest : CString} (solid : isBlank byte = false)
    (bare : quotes byte = false) (usual : special byte (ahead rest) = false)
    {word : Option CString} (inner : word = none → byte ≠ 35 ∧ byte ≠ 126) :
    wordsFrom .bare word (byte :: rest) =
      wordsFrom .bare (some (word.getD [] ++ [byte])) rest := by
  obtain ⟨⟨double, single⟩, slash⟩ : (byte ≠ 34 ∧ byte ≠ 39) ∧ byte ≠ 92 := by
    simpa [quotes] using bare
  rw [wordsFrom, if_neg (by rw [solid]; decide), if_neg slash, if_neg single, if_neg double,
    if_neg fun sharp => (inner sharp.1).1 sharp.2, if_neg]
  rintro (marked | tilde)
  · rw [usual] at marked
    cases marked
  · exact (inner tilde.1).2 tilde.2

/-- A plain rest of a word is read as it is. -/
theorem wordsFrom_plain {text : CString} (usual : plain text = true) (front : CString)
    {after : CString} (ends : ahead after = []) :
    wordsFrom .bare (some front) (text ++ after) =
      wordsFrom .bare (some (front ++ text)) after := by
  induction text generalizing front with
  | nil => rw [List.append_nil]; rfl
  | cons byte rest ih =>
    obtain ⟨solid, bare, ordinary, behind⟩ := plain_cons.mp usual
    have whole : special byte (ahead (rest ++ after)) = false := by
      rw [ahead_append behind, ends, List.append_nil, ordinary]
    have stepped := @wordsFrom_byte byte _ solid bare whole (some front) nofun
    rw [List.cons_append, stepped, Option.getD_some, ih behind, List.append_assoc]
    rfl

/-- Behind a word there is a space or nothing. -/
theorem ahead_spaced (words : List CString) : ahead (spaced words) = [] := by
  cases words with
  | nil => rfl
  | cons word rest =>
    rw [spaced_cons]
    exact ahead_blank rfl _

/-- A word that stands alone is read as it is. -/
theorem wordsFrom_alone {word : CString} (alone : StandsAlone word = true) (rest : List CString) :
    wordsFrom .bare none (word ++ spaced rest) = wordsFrom .bare (some word) (spaced rest) := by
  obtain ⟨starts, usual⟩ := Bool.and_eq_true_iff.mp alone
  cases word with
  | nil => cases starts
  | cons byte more =>
    obtain ⟨solid, bare, ordinary, behind⟩ := plain_cons.mp usual
    have whole : special byte (ahead (more ++ spaced rest)) = false := by
      rw [ahead_append behind, ahead_spaced, List.append_nil, ordinary]
    have first : byte ≠ 35 ∧ byte ≠ 126 := by simpa using starts
    rw [List.cons_append, wordsFrom_byte solid bare whole fun _ => first]
    exact wordsFrom_plain behind [byte] (ahead_spaced rest)

/-- Words that stand alone are read as they are. -/
theorem wordsFrom_spaced {args : List CString} (alone : ∀ word ∈ args, StandsAlone word = true)
    (front : CString) : wordsFrom .bare (some front) (spaced args) = some (front :: args) := by
  induction args generalizing front with
  | nil => rfl
  | cons word rest ih =>
    obtain ⟨first, others⟩ := List.forall_mem_cons.mp alone
    rw [spaced_cons, wordsFrom, if_pos (show isBlank 32 = true from rfl), wordsFrom_alone first,
      ih others]
    rfl

/-- The first word of a command whose words stand alone. -/
theorem ahead_alone {name : CString} (alone : StandsAlone name = true) (args : List CString) :
    ahead ((name ++ spaced args).dropWhile isBlank) = name := by
  obtain ⟨starts, usual⟩ := Bool.and_eq_true_iff.mp alone
  cases name with
  | nil => cases starts
  | cons byte more =>
    obtain ⟨solid, -⟩ := plain_cons.mp usual
    rw [List.cons_append, List.dropWhile_cons_of_neg (by simp [solid]), ← List.cons_append,
      ahead_append usual, ahead_spaced, List.append_nil]

/-- Some words are the words of a command, with single spaces between them, exactly when they stand
alone and the first names a command. -/
theorem commandWords_spaced_iff (name : CString) (args : List CString) :
    commandWords (name ++ spaced args) = some (name :: args) ↔
      (∀ word ∈ name :: args, StandsAlone word = true) ∧ namesCommand name = true := by
  unfold commandWords
  constructor
  · intro read
    split at read
    · rename_i names
      have alone := (wordsFrom_tight read (by simp [spaced_cons, weight]; omega)).1 rfl
      rw [ahead_alone (alone name List.mem_cons_self)] at names
      exact ⟨alone, names⟩
    · cases read
  · rintro ⟨alone, names⟩
    obtain ⟨first, others⟩ := List.forall_mem_cons.mp alone
    rw [ahead_alone first, if_pos names, wordsFrom_alone first, wordsFrom_spaced others]

/-- The words of a command are no longer than its text. -/
theorem commandWords_length {text : CString} {words : List CString}
    (read : commandWords text = some words) : (spaced words).length ≤ text.length + 1 := by
  unfold commandWords at read
  split at read
  · have bound := wordsFrom_length read
    simp [weight] at bound
    omega
  · cases read

end HwrunOs.SimpleCommands
