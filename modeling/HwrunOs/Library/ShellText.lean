import HwrunOs.Library.Shell

/-!
# Blanks in a shell command

The token recognition of the POSIX shell, one byte after another: quotes, expansions and
substitutions that stand in each other, operators and comments. A reading keeps the bytes of the
tokens, with their quotes, and where each token starts. Blanks between tokens and comments leave
nothing in it.
-/

namespace HwrunOs.ShellText

open HwrunOs.Bytes HwrunOs.Shells

/-! ## Token recognition -/

/-- What a part of a text stands in. -/
inductive Frame where
  /-- Behind a backslash. -/
  | escape
  /-- Between single quotes. -/
  | single
  /-- Between double quotes. -/
  | double
  /-- Between the braces of an expansion. -/
  | brace
  /-- Between backquotes. -/
  | backquote
  /-- Between the parentheses of a substitution. -/
  | substitution
  /-- Between parentheses. -/
  | subshell
deriving DecidableEq

/-- Every byte in the frame is part of a word. -/
def Frame.quotes : Frame → Bool
  | .escape | .single | .double | .brace => true
  | .backquote | .substitution | .subshell => false

/-- The token that is being read. -/
inductive Part where
  /-- Between tokens. -/
  | none
  /-- A word, and whether it is digits only. -/
  | word (digits : Bool)
  /-- An operator. -/
  | operator (bytes : CString)
  /-- A comment. -/
  | comment
deriving DecidableEq

/-- What a reading keeps. -/
inductive Mark where
  /-- A token starts. -/
  | starts
  /-- A redirection starts directly behind digits. -/
  | number
  /-- A byte of a token. -/
  | byte (value : UInt8)
deriving DecidableEq

/-- Where a reading stands. -/
structure Place where
  /-- The frames around it, the inner one first. -/
  frames : List Frame
  /-- The token. -/
  token : Part
  /-- Directly behind a dollar sign. -/
  dollar : Bool
deriving DecidableEq

namespace Place

/-- Before a text. -/
def start : Place := ⟨[], .none, false⟩

/-- The inner frame takes every byte as part of a word. -/
def quoted (place : Place) : Bool := place.frames.head?.any Frame.quotes

/-- A word is being read. -/
def inWord (place : Place) : Bool :=
  match place.token with
  | .word _ => true
  | _ => false

/-- A byte ends the inner frame. -/
def closes (place : Place) (byte : UInt8) : Bool :=
  match place.frames.head? with
  | none => false
  | some .escape => true
  | some .single => byte == 39
  | some .double => byte == 34
  | some .brace => byte == 125
  | some .backquote => byte == 96
  | some .substitution | some .subshell => byte == 41

/-- The frame that a byte of a word opens. -/
def opens (place : Place) (byte : UInt8) : Option Frame :=
  if place.frames.head? = some .single then none
  else if byte = 92 then some .escape
  else if byte = 96 then some .backquote
  else if place.dollar ∧ byte = 40 then some .substitution
  else if place.dollar ∧ byte = 123 then some .brace
  else if byte = 34 then some .double
  else if byte = 39 ∧ place.frames.head? ≠ some .double then some .single
  else none

/-- Behind a byte of a word that ends no frame. -/
def wordNext (place : Place) (byte : UInt8) : Place :=
  match place.opens byte with
  | some frame => ⟨frame :: place.frames, .none, false⟩
  | none =>
    { place with
      token := .word ((place.token = .word true ∨ !place.inWord) && isDigit byte)
      dollar := byte = 36 ∧ !place.dollar }

/-- Behind a byte of an operator. -/
def operatorNext (place : Place) (byte : UInt8) : Place :=
  if place.closes byte then
    ⟨place.frames.tail, if place.frames.head? = some .substitution then .word false
      else .operator [byte], false⟩
  else if byte = 40 then ⟨.subshell :: place.frames, .none, false⟩
  else
    match place.token with
    | .operator bytes =>
      { place with
        token := .operator (if operators.contains (bytes ++ [byte]) then bytes ++ [byte]
          else [byte])
        dollar := false }
    | _ => { place with token := .operator [byte], dollar := false }

/-- What a reading keeps in front of a byte of an operator. -/
def operatorMarks (place : Place) (byte : UInt8) : List Mark :=
  match place.token with
  | .operator bytes => if operators.contains (bytes ++ [byte]) then [] else [.starts]
  | .word true => if byte = 60 ∨ byte = 62 then [.number] else [.starts]
  | _ => [.starts]

/-- A byte is part of a comment: it starts one, or does not end one. -/
def comments (place : Place) (byte : UInt8) : Bool :=
  match place.token with
  | .word _ => false
  | .comment => byte != newline && !(byte == 96 && place.closes byte)
  | _ => byte == 35

/-- Between tokens; a comment goes on. -/
def between (place : Place) : Place :=
  { place with token := if place.token = .comment then .comment else .none, dollar := false }

/-- One byte. -/
def step (place : Place) (byte : UInt8) : Place × List Mark :=
  if place.quoted then
    (if place.closes byte then ⟨place.frames.tail, .word false, false⟩ else place.wordNext byte,
      [.byte byte])
  else if place.comments byte then ({ place with token := .comment, dollar := false }, [])
  else if byte = 96 ∧ place.closes byte then
    (⟨place.frames.tail, .word false, false⟩, [.byte byte])
  else if isBlank byte then (place.between, [])
  else if operators.contains [byte] ∧ ¬ (place.dollar ∧ byte = 40) then
    (place.operatorNext byte, place.operatorMarks byte ++ [.byte byte])
  else (place.wordNext byte, (if place.inWord then [] else [.starts]) ++ [.byte byte])

/-- What is kept of a text. -/
def read (place : Place) : CString → List Mark
  | [] => []
  | byte :: rest => (place.step byte).2 ++ (place.step byte).1.read rest

/-- Behind a text. -/
def after (place : Place) (text : CString) : Place :=
  text.foldl (fun place byte => (place.step byte).1) place

end Place

/-- What is kept of a command. -/
def reading (command : CString) : List Mark := Place.start.read command

example : reading (lit "a  && b # c") = reading (lit "a&&b") := by decide
example : reading (lit "a '  '") ≠ reading (lit "a ' '") := by decide
example : reading (lit "a \"$( b  \"c  d\" )\"") = reading (lit "a \"$( b \"c  d\" )\"") := by
  decide

namespace Place

/-! ## Rules of a reading -/

/-- A text is read byte by byte. -/
theorem read_cons (place : Place) (byte : UInt8) (rest : CString) :
    place.read (byte :: rest) = (place.step byte).2 ++ (place.step byte).1.read rest := rfl

/-- A text is read part by part. -/
theorem read_append (place : Place) (front back : CString) :
    place.read (front ++ back) = place.read front ++ (place.after front).read back := by
  induction front generalizing place with
  | nil => rfl
  | cons byte rest ih =>
    rw [List.cons_append, read_cons, ih, read_cons, List.append_assoc]
    rfl

/-- A step keeps its byte or nothing. -/
theorem step_mem {place : Place} {byte value : UInt8}
    (kept : .byte value ∈ (place.step byte).2) : value = byte := by
  have only {marks : List Mark} (plain : .byte value ∉ marks)
      (kept : .byte value ∈ marks ++ [.byte byte]) : value = byte := by
    rcases List.mem_append.mp kept with before | last
    · exact absurd before plain
    · exact Mark.byte.inj (List.mem_singleton.mp last)
  unfold step at kept
  split at kept
  · exact only List.not_mem_nil kept
  split at kept
  · exact absurd kept List.not_mem_nil
  split at kept
  · exact only List.not_mem_nil kept
  split at kept
  · exact absurd kept List.not_mem_nil
  split at kept
  · refine only ?_ kept
    unfold operatorMarks
    split <;> (try split) <;> simp
  · refine only ?_ kept
    split <;> simp

/-- A reading keeps bytes of its text. -/
theorem read_mem {place : Place} {text : CString} {value : UInt8}
    (kept : .byte value ∈ place.read text) : value ∈ text := by
  induction text generalizing place with
  | nil => exact absurd kept List.not_mem_nil
  | cons byte rest ih =>
    rcases List.mem_append.mp kept with now | later
    · rw [step_mem now]
      exact List.mem_cons_self
    · exact List.mem_cons_of_mem _ (ih later)

/-- In quotes every byte is kept as it is. -/
theorem step_quoted {place : Place} (inside : place.quoted = true) (byte : UInt8) :
    (place.step byte).2 = [.byte byte] := by
  rw [step, if_pos inside]

/-- A line feed is no part of a comment. -/
theorem comments_newline (place : Place) : place.comments newline = false := by
  unfold comments
  split <;> rfl

/-- A line feed outside quotes is an operator. -/
theorem step_newline {place : Place} (outside : place.quoted = false) :
    place.step newline =
      (place.operatorNext newline, place.operatorMarks newline ++ [.byte newline]) := by
  rw [step, if_neg (by rw [outside]; decide), if_neg (by rw [comments_newline]; decide),
    if_neg (fun both => absurd both.1 (by decide)), if_neg (by decide),
    if_pos ⟨by decide, fun both => absurd both.2 (by decide)⟩]

/-- A line feed is always kept. -/
theorem keeps_newline (place : Place) : .byte newline ∈ (place.step newline).2 := by
  by_cases inside : place.quoted = true
  · rw [step_quoted inside]
    exact List.mem_singleton_self _
  · rw [step_newline (Bool.eq_false_iff.mpr inside)]
    exact List.mem_append_right _ (List.mem_singleton_self _)

/-- A reading keeps the line feeds of its text. -/
theorem read_newline {place : Place} {text : CString} (found : newline ∈ text) :
    .byte newline ∈ place.read text := by
  induction text generalizing place with
  | nil => cases found
  | cons byte rest ih =>
    rw [read_cons]
    rcases List.mem_cons.mp found with rfl | later
    · exact List.mem_append_left _ (keeps_newline place)
    · exact List.mem_append_right _ (ih later)

/-! ## Blanks outside quotes -/

/-- The place between tokens has the same frames. -/
@[simp] theorem between_quoted (place : Place) : place.between.quoted = place.quoted := rfl

/-- Between tokens there is no more to end. -/
@[simp] theorem between_between (place : Place) : place.between.between = place.between := by
  unfold between
  dsimp only
  split <;> rfl

/-- A blank outside quotes ends the token and is not kept. -/
theorem step_blank {place : Place} (outside : place.quoted = false) {byte : UInt8}
    (blank : isBlank byte = true) : place.step byte = (place.between, []) := by
  have usual : byte = 32 ∨ byte = 9 := by simpa [isBlank] using blank
  have other : byte ≠ 35 ∧ byte ≠ 96 ∧ byte ≠ newline := by
    rcases usual with rfl | rfl <;> decide
  rw [step, if_neg (by rw [outside]; decide)]
  by_cases comment : place.token = .comment
  · have goes : place.comments byte = true := by
      unfold comments
      rw [comment]
      simp [other.2.1, other.2.2]
    rw [if_pos goes, between, if_pos comment]
  · have starts : place.comments byte = false := by
      unfold comments
      split
      · rfl
      · contradiction
      · exact beq_false_of_ne other.1
    rw [starts, if_neg (by decide), if_neg (fun both => other.2.1 both.1), if_pos blank]

/-- Blanks outside quotes are not kept. -/
theorem read_blanks {place : Place} (outside : place.quoted = false) {run : CString}
    (blank : ∀ byte ∈ run, isBlank byte = true) (filled : run ≠ []) (rest : CString) :
    place.read (run ++ rest) = place.between.read rest := by
  induction run generalizing place with
  | nil => exact absurd rfl filled
  | cons byte later ih =>
    have stepped := step_blank outside (blank byte List.mem_cons_self)
    rw [List.cons_append, read_cons, stepped]
    show place.between.read (later ++ rest) = _
    by_cases last : later = []
    · rw [last]
      rfl
    · rw [ih ((between_quoted place).trans outside)
        (fun item listed => blank item (List.mem_cons_of_mem _ listed)) last, between_between]

end Place

/-! ## Gaps between words -/

/-- A byte that stands between words: space, tab or line feed. -/
def separates (byte : UInt8) : Bool := byte == 32 || byte == 9 || byte == newline

/-- A run of blanks and line feeds, with the word behind it. -/
structure Gap where
  /-- The run. -/
  run : CString
  /-- The word. -/
  word : CString
  /-- The run is not empty. -/
  opened : run ≠ []
  /-- The word is not empty. -/
  filled : word ≠ []
  /-- The run holds nothing else. -/
  blank : ∀ byte ∈ run, separates byte = true
  /-- The word holds none of them. -/
  solid : ∀ byte ∈ word, separates byte = false

/-- A word without blanks and line feeds. -/
theorem solid_of_all {word : CString} (all : word.all (fun byte => !separates byte) = true) :
    ∀ byte ∈ word, separates byte = false := by simpa using all

/-- The gaps as they are. -/
def spread (gaps : List Gap) : CString := gaps.flatMap fun gap => gap.run ++ gap.word

/-- The gaps with one space for each run. -/
def closed (gaps : List Gap) : CString := gaps.flatMap fun gap => 32 :: gap.word

/-- A byte that ends the word in front of it outside quotes, with or without a blank. -/
def Place.endsWord (place : Place) (byte : UInt8) : Bool :=
  operators.contains [byte] || (byte == 96 && place.closes byte)

/-- A single space may stand for the run: the run is one, or it ends tokens outside quotes and holds
no line feed. Behind a backslash it has to begin with a space, and something that
ends a word has to follow. -/
def Gap.HarmlessAt (gap : Gap) (place : Place) : Prop :=
  gap.run = [32] ∨
    newline ∉ gap.run ∧ (place.after [32]).quoted = false ∧
      (place.quoted = false ∨
        gap.run.head? = some 32 ∧ gap.word.head?.any (place.after [32]).endsWord)

/-- Single spaces may stand for the runs, and what is left out behind them has no token. -/
def Harmless (place : Place) : List Gap → CString → Prop
  | [], dropped => place.read dropped = []
  | gap :: rest, dropped =>
    gap.HarmlessAt place ∧ Harmless (place.after (32 :: gap.word)) rest dropped

/-- A byte between words that is no line feed is a blank. -/
theorem separates_blank {byte : UInt8} (between : separates byte = true)
    (other : byte ≠ newline) : isBlank byte = true := by
  simpa [separates, isBlank, other] using between

namespace Place

/-- A backquote ends a backquoted text. -/
theorem step_closing {place : Place} (outside : place.quoted = false)
    (closing : place.closes 96 = true) :
    place.step 96 = (⟨place.frames.tail, .word false, false⟩, [.byte 96]) := by
  have unhidden : place.comments 96 = false := by
    unfold comments
    split
    · rfl
    · simp [closing]
    · rfl
  rw [step, if_neg (by rw [outside]; decide), if_neg (by rw [unhidden]; decide),
    if_pos ⟨rfl, closing⟩]

/-- An operator outside quotes and comments. -/
theorem step_operator {place : Place} (outside : place.quoted = false) {byte : UInt8}
    (unhidden : place.comments byte = false) (operator : operators.contains [byte] = true)
    (dollar : place.dollar = false) :
    place.step byte = (place.operatorNext byte, place.operatorMarks byte ++ [.byte byte]) := by
  have clean : ∀ text ∈ operators, (text.head?.any fun first => first == 96 || isBlank first) =
      false := by decide
  have other : byte ≠ 96 ∧ isBlank byte = false := by
    simpa using clean [byte] (List.contains_iff_mem.mp operator)
  rw [step, if_neg (by rw [outside]; decide), if_neg (by rw [unhidden]; decide),
    if_neg fun both => other.1 both.1, if_neg (by rw [other.2]; decide),
    if_pos ⟨operator, by rw [dollar]; exact fun both => absurd both.1 (by decide)⟩]

/-- A byte of a word that neither starts a comment nor ends a word is kept behind the start of its
word. -/
theorem step_word {place : Place} (outside : place.quoted = false) {byte : UInt8}
    (unhidden : place.comments byte = false) (solid : isBlank byte = false)
    (inner : place.endsWord byte = false) :
    (place.step byte).2 = (if place.inWord then [] else [.starts]) ++ [.byte byte] := by
  obtain ⟨plain, goes⟩ := Bool.or_eq_false_iff.mp inner
  rw [step, if_neg (by rw [outside]; decide), if_neg (by rw [unhidden]; decide),
    if_neg (fun both => by simp [both.1, both.1 ▸ both.2] at goes), if_neg (by rw [solid]; decide),
    if_neg (fun both => by rw [plain] at both; exact absurd both.1 (by decide))]

/-- Behind a byte that ends a word the place is the same with and without a blank before it. -/
theorem step_endsWord {place : Place} (outside : place.quoted = false)
    (word : place.token = .word false) (dollar : place.dollar = false) {byte : UInt8}
    (ends : place.endsWord byte = true) : place.between.step byte = place.step byte := by
  obtain ⟨frames, token, flag⟩ := place
  subst word dollar
  rcases Bool.or_eq_true_iff.mp ends with operator | closing
  · have usual : (byte == 35) = false := by
      apply beq_false_of_ne
      rintro rfl
      exact absurd operator (by decide)
    have apart := @step_operator (between ⟨frames, .word false, false⟩) outside byte usual
      operator rfl
    have joined := @step_operator ⟨frames, .word false, false⟩ outside byte rfl operator rfl
    exact apart.trans joined.symm
  · obtain ⟨same, closes⟩ := Bool.and_eq_true_iff.mp closing
    obtain rfl := eq_of_beq same
    have apart := @step_closing (between ⟨frames, .word false, false⟩) outside closes
    have joined := @step_closing ⟨frames, .word false, false⟩ outside closes
    exact apart.trans joined.symm

/-- A space leaves quotes only behind a backslash, and it stands in a word then. -/
theorem after_escape {place : Place} (inside : place.quoted = true)
    (left : (place.after [32]).quoted = false) :
    (place.after [32]).token = .word false ∧ (place.after [32]).dollar = false := by
  have behind : place.after [32] =
      if place.closes 32 then ⟨place.frames.tail, .word false, false⟩ else place.wordNext 32 := by
    show (place.step 32).1 = _
    rw [step, if_pos inside]
  by_cases closing : place.closes 32 = true
  · rw [behind, if_pos closing]
    exact ⟨rfl, rfl⟩
  · have plain : place.opens 32 = none := by
      unfold opens
      split
      · rfl
      · simp
    have same : (place.after [32]).quoted = place.quoted := by
      rw [behind, if_neg closing, wordNext, plain]
      rfl
    exact absurd (same.symm.trans left) (by rw [inside]; decide)

/-- In a comment the next that is kept is no byte but a backquote. -/
theorem read_comment {place : Place} (outside : place.quoted = false)
    (comment : place.token = .comment) (text : CString) {byte : UInt8} (other : byte ≠ 96) :
    (place.read text).head? ≠ some (.byte byte) := by
  induction text generalizing place with
  | nil => exact nofun
  | cons first rest ih =>
    rw [read_cons]
    by_cases goes : place.comments first = true
    · have stays : place.step first = ({ place with token := .comment, dollar := false }, []) := by
        rw [step, if_neg (by rw [outside]; decide), if_pos goes]
      rw [stays]
      exact ih outside rfl
    · have ends : first = newline ∨ first = 96 ∧ place.closes first = true := by
        unfold comments at goes
        rw [comment] at goes
        by_cases line : first = newline
        · exact .inl line
        · simpa [line] using goes
      rcases ends with rfl | ⟨rfl, closing⟩
      · rw [step_newline outside, operatorMarks, comment]
        exact nofun
      · rw [step_closing outside closing]
        intro same
        exact other (Mark.byte.inj (Option.some.inj same)).symm

/-- Outside quotes a byte of a word is kept as a part of the word or behind the start of one. -/
theorem read_apart {place : Place} (outside : place.quoted = false)
    (word : place.token = .word false) {byte : UInt8} (solid : isBlank byte = false)
    (inner : place.endsWord byte = false) (rest others : CString) :
    place.between.read (byte :: rest) ≠ place.read (byte :: others) := by
  have joined : (place.read (byte :: others)).head? = some (.byte byte) := by
    have kept := step_word outside (by rw [comments, word]) solid inner
    rw [read_cons, kept, inWord, word]
    rfl
  intro same
  have heads := (congrArg List.head? same).trans joined
  have bare : place.between.token = .none := by rw [between, word]; rfl
  by_cases sharp : byte = 35
  · have starts : place.between.step byte =
        ({ place.between with token := .comment, dollar := false }, []) := by
      rw [step, if_neg (by rw [between_quoted, outside]; decide), if_pos]
      rw [comments, bare, sharp]
      rfl
    rw [read_cons, starts] at heads
    have silent := @read_comment { place.between with token := .comment, dollar := false } outside
      rfl rest byte (by rw [sharp]; decide)
    exact silent heads
  · have unhidden : place.between.comments byte = false := by
      rw [comments, bare]
      exact beq_false_of_ne sharp
    have kept := @step_word place.between outside byte unhidden solid inner
    rw [read_cons, kept, inWord, bare] at heads
    cases heads

end Place

open Place

namespace Gap

/-- Without a line feed the run is blanks. -/
theorem blanks {gap : Gap} (plain : newline ∉ gap.run) : ∀ byte ∈ gap.run, isBlank byte = true :=
  fun byte listed => separates_blank (gap.blank byte listed) fun same => plain (same ▸ listed)

/-- A run outside quotes may be replaced by a single space. -/
theorem read_outside {gap : Gap} {place : Place} (plain : newline ∉ gap.run)
    (outside : place.quoted = false) (rest : CString) :
    place.read (gap.run ++ rest) = place.read (32 :: rest) := by
  have single : place.read ([32] ++ rest) = place.between.read rest :=
    read_blanks outside (List.all_eq_true.mp (by decide)) (by decide) rest
  exact (read_blanks outside (blanks plain) gap.opened rest).trans single.symm

/-- A run behind a backslash may be replaced by its first space, when a word ends there. -/
theorem read_escaped {gap : Gap} {place : Place} (plain : newline ∉ gap.run)
    (inside : place.quoted = true) (left : (place.after [32]).quoted = false)
    (space : gap.run.head? = some 32) (follows : gap.word.head?.any (place.after [32]).endsWord)
    (rest : CString) :
    place.read (gap.run ++ (gap.word ++ rest)) = place.read (32 :: (gap.word ++ rest)) := by
  obtain ⟨more, run⟩ := List.head?_eq_some_iff.mp space
  obtain ⟨first, later, word⟩ := List.exists_cons_of_ne_nil gap.filled
  obtain ⟨token, dollar⟩ := after_escape inside left
  rw [word] at follows
  rw [run, word, List.cons_append, read_cons, read_cons]
  congr 1
  by_cases last : more = []
  · rw [last]
    rfl
  · have blank : ∀ byte ∈ more, isBlank byte = true := fun byte listed =>
      blanks plain byte (run ▸ List.mem_cons_of_mem _ listed)
    apply (read_blanks left blank last (first :: later ++ rest)).trans
    rw [List.cons_append, read_cons, read_cons, step_endsWord left token dollar follows]
    rfl

/-- A run may be replaced by a single space where it is harmless. -/
theorem HarmlessAt.read {gap : Gap} {place : Place} (harmless : gap.HarmlessAt place)
    (rest : CString) :
    place.read (gap.run ++ (gap.word ++ rest)) = place.read (32 :: (gap.word ++ rest)) := by
  rcases harmless with single | ⟨plain, left, outside | ⟨space, follows⟩⟩
  · rw [single]
    rfl
  · exact read_outside plain outside _
  · by_cases inside : place.quoted = true
    · exact read_escaped plain inside left space follows rest
    · exact read_outside plain (Bool.eq_false_iff.mpr inside) _

/-- Behind the first space of a run in quotes, the next that is kept differs. -/
theorem read_differs {place : Place} {gap : Gap} {more rest others : CString}
    (run : gap.run = 32 :: more) (filled : more ≠ []) (plain : newline ∉ more)
    (inside : place.quoted = true) (harmful : ¬ gap.HarmlessAt place) :
    (place.after [32]).read (more ++ (gap.word ++ rest)) ≠
      (place.after [32]).read (gap.word ++ others) := by
  obtain ⟨first, later, word⟩ := List.exists_cons_of_ne_nil gap.filled
  have solid : separates first = false := gap.solid first (word ▸ List.mem_cons_self)
  have blank : ∀ byte ∈ more, separates byte = true := fun byte listed =>
    gap.blank byte (run ▸ List.mem_cons_of_mem _ listed)
  rw [word, List.cons_append, List.cons_append]
  by_cases still : (place.after [32]).quoted = true
  · obtain ⟨second, others, rfl⟩ := List.exists_cons_of_ne_nil filled
    intro same
    rw [List.cons_append, read_cons, read_cons, step_quoted still, step_quoted still] at same
    have equal := Mark.byte.inj (List.cons.inj same).1
    rw [← equal, blank second List.mem_cons_self] at solid
    cases solid
  · have left := Bool.eq_false_iff.mpr still
    obtain ⟨token, dollar⟩ := after_escape inside left
    have whole : newline ∉ gap.run := by
      rw [run]
      exact List.not_mem_cons_of_ne_of_not_mem (by decide) plain
    have inner : (place.after [32]).endsWord first = false := by
      apply Bool.eq_false_iff.mpr
      intro ends
      refine harmful (.inr ⟨whole, left, .inr ⟨by rw [run]; rfl, ?_⟩⟩)
      rw [word]
      exact ends
    have nonblank : isBlank first = false := by
      simp only [separates, Bool.or_eq_false_iff] at solid
      simp [isBlank, solid]
    rw [read_blanks left (fun byte listed => separates_blank (blank byte listed)
      fun same => plain (same ▸ listed)) filled]
    exact read_apart left token nonblank inner _ _

/-- A harmful run is read differently, whatever follows. -/
theorem read_harmful {place : Place} {gap : Gap} (harmful : ¬ gap.HarmlessAt place)
    (rest others : CString) (spaces : ∀ byte ∈ others, separates byte = true → byte = 32) :
    place.read (gap.run ++ (gap.word ++ rest)) ≠ place.read (32 :: (gap.word ++ others)) := by
  intro same
  have absent {byte : UInt8} (between : separates byte = true) (other : byte ≠ 32) :
      .byte byte ∉ place.read (gap.run ++ (gap.word ++ rest)) := by
    intro kept
    rw [same] at kept
    rcases List.mem_cons.mp (read_mem kept) with space | later
    · exact other space
    · rcases List.mem_append.mp later with inner | behind
      · rw [gap.solid byte inner] at between
        cases between
      · exact other (spaces byte behind between)
  have plain : newline ∉ gap.run := fun listed =>
    absent (by decide) (by decide) (read_newline (List.mem_append_left _ listed))
  by_cases inside : place.quoted = true
  · obtain ⟨first, more, run⟩ := List.exists_cons_of_ne_nil gap.opened
    have space : first = 32 := by
      by_contra other
      refine absent (gap.blank first (run ▸ List.mem_cons_self)) other ?_
      rw [run, List.cons_append, read_cons, step_quoted inside]
      exact List.mem_cons_self
    subst space
    have filled : more ≠ [] := fun none => harmful (.inl (by rw [run, none]))
    rw [run, List.cons_append, read_cons, read_cons] at same
    exact read_differs run filled
      (fun listed => plain (run ▸ List.mem_cons_of_mem _ listed)) inside harmful
      (List.append_cancel_left same)
  · have outside := Bool.eq_false_iff.mpr inside
    refine harmful (.inr ⟨plain, ?_, .inl outside⟩)
    show (place.step 32).1.quoted = false
    rw [step_blank outside (by decide)]
    exact outside

end Gap

/-- With single spaces for its runs, and without what is left out behind them, a text reads the same
exactly when that is harmless. -/
theorem read_closed_iff (place : Place) (gaps : List Gap) (dropped : CString) :
    place.read (closed gaps) = place.read (spread gaps ++ dropped) ↔
      Harmless place gaps dropped := by
  induction gaps generalizing place with
  | nil => exact eq_comm
  | cons gap rest ih =>
    have wide : spread (gap :: rest) ++ dropped =
        gap.run ++ (gap.word ++ (spread rest ++ dropped)) := by
      simp [spread]
    have narrow : closed (gap :: rest) = 32 :: (gap.word ++ closed rest) := by simp [closed]
    rw [wide, narrow]
    by_cases harmless : gap.HarmlessAt place
    · have same := read_append place (32 :: gap.word)
      rw [harmless.read, ← List.cons_append, ← List.cons_append, same, same,
        List.append_cancel_left_eq, ih]
      exact (and_iff_right harmless).symm
    · have spaces : ∀ byte ∈ closed rest, separates byte = true → byte = 32 := by
        intro byte listed between
        obtain ⟨other, -, inner⟩ := List.mem_flatMap.mp listed
        rcases List.mem_cons.mp inner with space | solid
        · exact space
        · rw [other.solid byte solid] at between
          cases between
      constructor
      · exact fun equal => absurd equal.symm (Gap.read_harmful harmless _ _ spaces)
      · exact fun kept => absurd kept.1 harmless

end HwrunOs.ShellText
