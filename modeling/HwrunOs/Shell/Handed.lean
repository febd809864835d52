import HwrunOs.Library.ShellText
import HwrunOs.Library.SimpleCommands
import HwrunOs.Shell.Arguments

/-!
# What `/bin/sh` gets

`shell_impl.c`: a command that is no builtin is handed to `/bin/sh -c` as one string. `join_line`
makes it from the words of the line, or from the arguments of `run`, with single spaces between
them and without quotes.
-/

namespace HwrunOs.Shell

open HwrunOs.Bytes HwrunOs.Words HwrunOs.ShellText HwrunOs.SimpleCommands

/-! ## Handing over -/

/-- The names in `g_builtins`. -/
def builtins : List CString :=
  ["help", "echo", "pwd", "history", "alias", "exit", "quit"].map lit

/-- The loop of `join_line` behind the first argument: it ends at the first that does not fit. -/
def joinFrom (cap : Nat) (out : CString) : List CString → CString
  | [] => out
  | arg :: rest =>
    if cap ≤ out.length + (1 + arg.length) then out else joinFrom cap (out ++ 32 :: arg) rest

/-- `join_line`. -/
def joinLine (cap : Nat) : List CString → CString
  | [] => []
  | arg :: rest => if cap ≤ arg.length then [] else joinFrom cap arg rest

/-- What a command is handed to. -/
inductive Handed where
  /-- A function of `g_builtins`. -/
  | builtin (argv : List CString)
  /-- `run_external`. -/
  | external (line : CString)
deriving DecidableEq

/-- `exec_tokens`, up to the call. -/
def execTokens (argv : List CString) : Handed :=
  if argv.head?.any builtins.contains then .builtin argv else .external (joinLine lineSize argv)

/-- `ops_eval` of a line, up to the call; or its error. -/
def evalHands (state : State) (line : CString) : Except Int Handed :=
  (opsEval state (some line) true).result.map execTokens

/-- `ops_run` of some arguments, up to the call; or its error. -/
def runHands (state : State) (argv : List CString) : Except Int Handed :=
  (opsRun state (some argv)).result.map execTokens

/-! ## The claim and its condition -/

/-- A name that is neither a builtin nor an alias. -/
def IsExternal (aliases : List Alias) (name : CString) : Prop :=
  name ∉ builtins ∧ aliasGet aliases name = none

/-- A line without the blanks around it. -/
def trimmed (line : CString) : CString := trim isWordBlank isWordBlank line

/-- The shell gets a command that it reads like the trimmed line, or the line does not fit the
buffer and is refused. -/
def EvalMeans (state : State) (line : CString) : Prop :=
  ∀ name, (words isWordBlank line).head? = some name → IsExternal state.aliases name →
    (lineSize ≤ line.length ∧ ∃ rc, evalHands state line = .error rc) ∨
      ∃ command, evalHands state line = .ok (.external command) ∧
        reading command = reading (trimmed line)

/-- The shell gets a command with just the given words, or they are refused. -/
def RunMeans (state : State) (argv : List CString) : Prop :=
  ∀ name args, argv = name :: args → IsExternal state.aliases name →
    (∃ rc, runHands state argv = .error rc) ∨
      ∃ command, runHands state argv = .ok (.external command) ∧
        commandWords command = some argv

/-- The parts of a trimmed line: the first 64 words that fit the buffer, with the gaps between
them, and what is left out. -/
def Parts (line name : CString) (gaps : List Gap) (dropped : CString) : Prop :=
  (words isWordBlank (trimCopy lineSize line)).take shellArgsMax = name :: gaps.map Gap.word ∧
    trimmed line = name ++ (spread gaps ++ dropped)

/-- The words that come from an alias, if a name is one and its value is not blank. -/
def aliased (aliases : List Alias) (name : CString) (args : List CString) :
    Option (List CString) :=
  ((expansion aliases name).map fun value =>
    (words isWordBlank (expandLine value args)).take shellArgsMax).filter (!·.isEmpty)

/-- What the buffer holds of the first word is no builtin and no alias, single spaces may stand for
the gaps, and no more than a comment is left out. A first word that is cut to the name of an alias
needs one that stands for the whole line. -/
def EvalKeeps (state : State) (line : CString) : Prop :=
  ∀ first, (words isWordBlank line).head? = some first → IsExternal state.aliases first →
    ∀ name gaps dropped, Parts line name gaps dropped →
      (aliased state.aliases name (gaps.map Gap.word) = none ∧ name ∉ builtins ∧
        Harmless (Place.start.after name) gaps dropped) ∨
      ∃ given, aliased state.aliases name (gaps.map Gap.word) = some given ∧
        given.head?.any builtins.contains = false ∧
        reading (joinLine lineSize given) = reading (trimmed line)

/-- There are at most 64 arguments, they fit the buffer, the first names a command, and no one
needs quotes. -/
def RunKeeps (state : State) (argv : List CString) : Prop :=
  ∀ name args, argv = name :: args → IsExternal state.aliases name → [] ∉ argv →
    argv.length ≤ shellArgsMax ∧ (name ++ spaced args).length < lineSize ∧
      namesCommand name = true ∧ ∀ word ∈ argv, StandsAlone word = true

/-! ## `join_line` -/

/-- Words with a space before each, in two parts. -/
theorem spaced_append (front back : List CString) :
    spaced (front ++ back) = spaced front ++ spaced back := List.flatMap_append

/-- The loop writes the front arguments that fit. -/
theorem joinFrom_kept {cap : Nat} {out : CString} (room : out.length < cap)
    (args : List CString) : ∃ kept, kept <+: args ∧ joinFrom cap out args = out ++ spaced kept ∧
      (out ++ spaced kept).length < cap := by
  induction args generalizing out with
  | nil => exact ⟨[], List.prefix_rfl, by simp [joinFrom, spaced], by simpa [spaced] using room⟩
  | cons arg rest ih =>
    rw [joinFrom]
    split
    · exact ⟨[], List.nil_prefix, by simp [spaced], by simpa [spaced] using room⟩
    · rename_i fits
      obtain ⟨kept, begins, joined, bound⟩ := @ih (out ++ 32 :: arg) (by simp; omega)
      have grown : out ++ 32 :: arg ++ spaced kept = out ++ spaced (arg :: kept) := by
        simp [spaced_cons]
      exact ⟨arg :: kept, List.prefix_cons_inj arg |>.mpr begins, joined.trans grown,
        grown ▸ bound⟩

/-- The loop writes all arguments when they fit. -/
theorem joinFrom_fits {cap : Nat} {out : CString} {args : List CString}
    (fits : (out ++ spaced args).length < cap) : joinFrom cap out args = out ++ spaced args := by
  induction args generalizing out with
  | nil => simp [joinFrom, spaced]
  | cons arg rest ih =>
    have grown : out ++ 32 :: arg ++ spaced rest = out ++ spaced (arg :: rest) := by
      simp [spaced_cons]
    rw [joinFrom, if_neg, ih (grown ▸ fits), grown]
    simp [spaced_cons] at fits
    omega

/-- `join_line` writes the front arguments that fit. -/
theorem joinLine_kept {cap : Nat} (room : 0 < cap) (argv : List CString) :
    ∃ kept, kept <+: argv ∧ joinLine cap argv = (spaced kept).drop 1 ∧
      (spaced kept).length ≤ cap := by
  cases argv with
  | nil => exact ⟨[], List.prefix_rfl, rfl, Nat.zero_le _⟩
  | cons arg rest =>
    rw [joinLine]
    split
    · exact ⟨[], List.nil_prefix, rfl, Nat.zero_le _⟩
    · rename_i fits
      obtain ⟨kept, begins, joined, bound⟩ := joinFrom_kept (Nat.lt_of_not_le fits) rest
      refine ⟨arg :: kept, List.prefix_cons_inj arg |>.mpr begins, ?_, ?_⟩
      · rw [joined, spaced_cons]
        rfl
      · rw [spaced_cons, List.length_cons]
        omega

/-- `join_line` writes all arguments when they fit. -/
theorem joinLine_fits {cap : Nat} {name : CString} {args : List CString}
    (fits : (name ++ spaced args).length < cap) :
    joinLine cap (name :: args) = name ++ spaced args := by
  have first : ¬ cap ≤ name.length := by
    rw [List.length_append] at fits
    omega
  rw [joinLine, if_neg first, joinFrom_fits fits]

/-! ## `ops_run` -/

/-- The arguments that `ops_run` copies. -/
theorem fill_words (index : Nat) (args : List CString) :
    (fill index args).words = args.take (shellArgsMax - index) := by
  induction args generalizing index with
  | nil => rw [List.take_nil]; rfl
  | cons word rest ih =>
    unfold fill
    split
    · rename_i full
      rw [Nat.sub_eq_zero_of_le full, List.take_zero]
    · rename_i room
      have places : shellArgsMax - index = shellArgsMax - (index + 1) + 1 := by omega
      rw [places, List.take_succ_cons, ← ih]

/-- A name that is no alias is not expanded. -/
theorem expansion_external {aliases : List Alias} {name : CString}
    (absent : aliasGet aliases name = none) : expansion aliases name = none := by
  rw [expansion, absent]
  rfl

/-- Other words are handed to the shell in one line. -/
theorem execTokens_external {name : CString} (other : name ∉ builtins) (args : List CString) :
    execTokens (name :: args) = .external (joinLine lineSize (name :: args)) := by
  rw [execTokens, if_neg]
  simpa using other

/-- What `ops_run` hands to the shell. -/
theorem runHands_external {state : State} {name : CString} {args : List CString}
    (outer : IsExternal state.aliases name) (filled : [] ∉ name :: args) :
    runHands state (name :: args) =
      .ok (.external (joinLine lineSize ((name :: args).take shellArgsMax))) := by
  have given : (opsRun state (some (name :: args))).result =
      .ok ((name :: args).take shellArgsMax) := by
    unfold opsRun
    dsimp only
    rw [if_neg filled, expansion_external outer.2]
    exact congrArg Except.ok (fill_words 0 (name :: args))
  rw [runHands, given]
  exact congrArg Except.ok (execTokens_external outer.1 _)

/-- Arguments with an empty one are refused. -/
theorem runHands_refused {state : State} {argv : List CString} (empty : [] ∈ argv) :
    runHands state argv = .error einval := by
  cases argv with
  | nil => rfl
  | cons name args =>
    rw [runHands, opsRun, if_pos empty]
    rfl

/-- Arguments that the shell reads back are all handed over. -/
theorem joinLine_read {argv : List CString} (filled : [] ∉ argv) (listed : argv ≠ [])
    (read : commandWords (joinLine lineSize (argv.take shellArgsMax)) = some argv) :
    argv.length ≤ shellArgsMax ∧ (spaced argv).length ≤ lineSize := by
  obtain ⟨kept, begins, joined, bound⟩ :=
    joinLine_kept (show 0 < lineSize by decide) (argv.take shellArgsMax)
  obtain ⟨more, whole⟩ := begins.trans (List.take_prefix _ _)
  have length := commandWords_length read
  rw [joined, List.length_drop] at length
  have parts := congrArg List.length (spaced_append kept more)
  rw [whole, List.length_append] at parts
  have weighs : ∀ words : List CString, words ≠ [] → [] ∉ words → 1 < (spaced words).length := by
    intro words others filled
    obtain ⟨first, rest, rfl⟩ := List.exists_cons_of_ne_nil others
    have solid : first ≠ [] := fun empty => filled (empty ▸ List.mem_cons_self)
    have positive := List.length_pos_iff.mpr solid
    rw [spaced_cons, List.length_cons, List.length_append]
    omega
  have heavy := weighs argv listed filled
  have nothing : more = [] := by
    by_contra left
    have light := weighs more left fun empty => filled (whole ▸ List.mem_append_right _ empty)
    omega
  rw [nothing, List.append_nil] at whole
  subst whole
  have short := begins.length_le
  rw [List.length_take] at short
  exact ⟨by omega, bound⟩

/-- `run` hands over just the words, or refuses them, exactly when they are kept. -/
theorem runMeans_iff (state : State) (argv : List CString) :
    RunMeans state argv ↔ RunKeeps state argv := by
  refine forall₄_congr fun name args given outer => ?_
  subst given
  by_cases empty : [] ∈ name :: args
  · exact ⟨fun _ filled => absurd empty filled, fun _ => .inl ⟨einval, runHands_refused empty⟩⟩
  · rw [runHands_external outer empty]
    constructor
    · rintro (⟨rc, refused⟩ | ⟨command, handed, read⟩) -
      · cases refused
      · obtain rfl := Handed.external.inj (Except.ok.inj handed)
        obtain ⟨places, room⟩ := joinLine_read empty (List.cons_ne_nil _ _) read
        have fits : (name ++ spaced args).length < lineSize := by
          rw [spaced_cons, List.length_cons] at room
          omega
        rw [List.take_of_length_le places, joinLine_fits fits] at read
        obtain ⟨alone, names⟩ := (commandWords_spaced_iff name args).mp read
        exact ⟨places, fits, names, alone⟩
    · intro keeps
      obtain ⟨places, fits, names, alone⟩ := keeps empty
      refine .inr ⟨_, rfl, ?_⟩
      rw [List.take_of_length_le places, joinLine_fits fits]
      exact (commandWords_spaced_iff name args).mpr ⟨alone, names⟩

/-! ## `ops_eval` -/

/-- Single spaces for the gaps, as words with a space before each. -/
theorem closed_eq (gaps : List Gap) : closed gaps = spaced (gaps.map Gap.word) := by
  simp [closed, spaced, List.flatMap_map]

/-- Single spaces are no longer than the gaps. -/
theorem closed_length (gaps : List Gap) : (closed gaps).length ≤ (spread gaps).length := by
  induction gaps with
  | nil => exact le_rfl
  | cons gap rest ih =>
    have opened := List.length_pos_iff.mpr gap.opened
    have narrow : closed (gap :: rest) = 32 :: (gap.word ++ closed rest) := by simp [closed]
    have wide : spread (gap :: rest) = gap.run ++ gap.word ++ spread rest := by simp [spread]
    rw [narrow, wide]
    simp only [List.length_cons, List.length_append]
    omega

/-- Behind a word there is a blank or nothing. -/
theorem behind_word (text : CString) :
    ∀ byte ∈ (text.dropWhile fun byte => !isWordBlank byte).head?, isWordBlank byte = true := by
  intro byte head
  have stops := List.head?_dropWhile_not (fun byte => !isWordBlank byte) text
  rw [Option.mem_def.mp head] at stops
  simpa using stops

/-- The blank behind a word makes no difference to the words. -/
theorem words_behind (text : CString) :
    words isWordBlank ((text.dropWhile fun byte => !isWordBlank byte).drop 1) =
      words isWordBlank (text.dropWhile fun byte => !isWordBlank byte) := by
  have begins := behind_word text
  cases behind : text.dropWhile fun byte => !isWordBlank byte with
  | nil => rfl
  | cons separator rest =>
    rw [behind] at begins
    exact (words_blank (begins separator rfl) rest).symm

/-- A text that begins with a blank is gaps, up to any word of it. -/
theorem gapped {found : List CString} {text : CString}
    (begins : ∀ byte ∈ text.head?, isWordBlank byte = true)
    (split : words isWordBlank text = found) :
    ∃ gaps rest, text = spread gaps ++ rest ∧ gaps.map Gap.word = found := by
  induction found generalizing text with
  | nil => exact ⟨[], text, rfl, rfl⟩
  | cons word others ih =>
    cases left : text.dropWhile isWordBlank with
    | nil =>
      rw [← words_dropWhile, left] at split
      cases split
    | cons first more =>
      have solid : isWordBlank first = false := by
        have head := List.head?_dropWhile_not isWordBlank text
        rw [left] at head
        simpa using head
      rw [← words_dropWhile, left, words_takeWhile solid, words_behind] at split
      obtain ⟨rfl, later⟩ := List.cons.inj split
      obtain ⟨gaps, rest, whole, listed⟩ := ih (behind_word more) later
      have run : text.takeWhile isWordBlank ≠ [] := by
        cases text with
        | nil => cases left
        | cons byte text =>
          rw [List.takeWhile_cons_of_pos (begins byte rfl)]
          exact List.cons_ne_nil _ _
      have word : ∀ byte ∈ first :: more.takeWhile fun byte => !isWordBlank byte,
          isWordBlank byte = false := by
        intro byte inside
        rcases List.mem_cons.mp inside with rfl | inside
        · exact solid
        · simpa using List.mem_takeWhile_imp inside
      refine ⟨⟨_, _, run, List.cons_ne_nil _ _, fun byte inside => List.mem_takeWhile_imp inside,
        word⟩ :: gaps, rest, ?_, by rw [List.map_cons, listed]⟩
      calc text = text.takeWhile isWordBlank ++ text.dropWhile isWordBlank :=
            List.takeWhile_append_dropWhile.symm
        _ = text.takeWhile isWordBlank ++ (first :: ((more.takeWhile fun byte => !isWordBlank byte)
              ++ more.dropWhile fun byte => !isWordBlank byte)) := by
            rw [left, List.takeWhile_append_dropWhile]
        _ = _ := by
            rw [whole]
            simp [spread]

/-- A text that begins with a word is the word and gaps. -/
theorem gapped_word {text name : CString} {args : List CString}
    (begins : ∀ byte ∈ text.head?, isWordBlank byte = false)
    (split : words isWordBlank text = name :: args) :
    ∃ gaps rest, text = name ++ (spread gaps ++ rest) ∧ gaps.map Gap.word = args := by
  cases text with
  | nil => cases split
  | cons first more =>
    rw [words_takeWhile (begins first rfl), words_behind] at split
    obtain ⟨rfl, later⟩ := List.cons.inj split
    obtain ⟨gaps, rest, whole, listed⟩ := gapped (behind_word more) later
    refine ⟨gaps, rest, ?_, listed⟩
    rw [← whole, List.cons_append, List.takeWhile_append_dropWhile]

/-- A trimmed text does not begin with a blank. -/
theorem trim_begins (text : CString) :
    ∀ byte ∈ (trim isWordBlank isWordBlank text).head?, isWordBlank byte = false := by
  intro byte head
  have stops := List.head?_dropWhile_not isWordBlank text
  obtain ⟨rest, whole⟩ := List.head?_eq_some_iff.mp (Option.mem_def.mp head)
  obtain ⟨more, longer⟩ := List.rdropWhile_prefix isWordBlank (text.dropWhile isWordBlank)
  have first : text.dropWhile isWordBlank = byte :: (rest ++ more) := by
    rw [← longer, ← List.cons_append, ← whole]
    rfl
  rw [first] at stops
  simpa using stops

/-- The text in the buffer is a front part of the trimmed line. -/
theorem trimCopy_prefix (cap : Nat) (line : CString) : trimCopy cap line <+: trimmed line :=
  trim_prefix (snprintf_begins cap line)

/-- Gaps in two parts. -/
theorem spread_append (front back : List Gap) :
    spread (front ++ back) = spread front ++ spread back := List.flatMap_append

/-- A line of which something is left in the buffer has parts. -/
theorem parts_exist {line : CString} (filled : trimCopy lineSize line ≠ []) :
    ∃ name gaps dropped, Parts line name gaps dropped := by
  have begins := trim_begins (snprintf lineSize line)
  obtain ⟨more, whole⟩ := trimCopy_prefix lineSize line
  cases split : words isWordBlank (trimCopy lineSize line) with
  | nil =>
    obtain ⟨first, rest, text⟩ := List.exists_cons_of_ne_nil filled
    rw [text, words_takeWhile (begins first (by rw [show trim _ _ _ = _ from text]; rfl))] at split
    cases split
  | cons name args =>
    obtain ⟨gaps, rest, text, listed⟩ := gapped_word begins split
    refine ⟨name, gaps.take (shellArgsMax - 1),
      spread (gaps.drop (shellArgsMax - 1)) ++ rest ++ more, ?_, ?_⟩
    · rw [split, List.map_take, listed]
      rfl
    · have cut := spread_append (gaps.take (shellArgsMax - 1)) (gaps.drop (shellArgsMax - 1))
      rw [List.take_append_drop] at cut
      rw [← whole, trimCopy, text, cut]
      simp

/-- The first words in the buffer fit it again with single spaces. -/
theorem parts_fit {line name : CString} {gaps : List Gap} {dropped : CString}
    (parts : Parts line name gaps dropped) :
    (name ++ spaced (gaps.map Gap.word)).length < lineSize := by
  obtain ⟨front, -⟩ := parts
  cases split : words isWordBlank (trimCopy lineSize line) with
  | nil =>
    rw [split] at front
    cases front
  | cons first args =>
    rw [split] at front
    obtain ⟨rfl, others⟩ := List.cons.inj front
    obtain ⟨all, rest, text, listed⟩ := gapped_word (trim_begins (snprintf lineSize line)) split
    have cut := spread_append (all.take (shellArgsMax - 1)) (all.drop (shellArgsMax - 1))
    rw [List.take_append_drop] at cut
    have short := closed_length (all.take (shellArgsMax - 1))
    rw [closed_eq, List.map_take, listed, show args.take (shellArgsMax - 1) = _ from others]
      at short
    have copied := snprintf_length line (show 0 < lineSize by decide)
    have kept : (trim isWordBlank isWordBlank (snprintf lineSize line)).length ≤
        (snprintf lineSize line).length :=
      ((List.rdropWhile_prefix _ _).length_le).trans (List.length_dropWhile_le _ _)
    have sizes := congrArg List.length text
    have parts := congrArg List.length cut
    simp only [List.length_append] at sizes parts ⊢
    omega

/-- `split_tokens` returns the first words. -/
theorem splitTokens_take (buf : CString) (max : Nat) :
    (splitTokens buf max).words = (words isWordBlank buf).take max := splitFrom_words max 0 buf

/-- The words that `ops_eval` executes. -/
theorem opsEval_result {state : State} {line name : CString} {args : List CString}
    (split : (words isWordBlank (trimCopy lineSize line)).take shellArgsMax = name :: args) :
    (opsEval state (some line) true).result =
      .ok ((aliased state.aliases name args).getD (name :: args)) := by
  have filled : trimCopy lineSize line ≠ [] := by
    intro empty
    rw [empty] at split
    cases split
  have given : (splitTokens (trimCopy lineSize line) shellArgsMax).words = name :: args :=
    (splitTokens_take _ _).trans split
  unfold opsEval
  dsimp only
  rw [if_neg (by decide), if_neg filled, given]
  dsimp only
  unfold aliased
  cases found : expansion state.aliases name with
  | none => rfl
  | some value =>
    simp only [splitTokens_take, Option.map_some]
    by_cases empty : (words isWordBlank (expandLine value args)).take shellArgsMax = []
    · rw [if_pos empty, empty]
      rfl
    · rw [if_neg empty, Option.filter_some, if_pos (by simpa using empty)]
      rfl

/-- A line of which nothing is left in the buffer does not fit it. -/
theorem trimCopy_nil {line : CString} (empty : trimCopy lineSize line = [])
    (filled : words isWordBlank line ≠ []) : lineSize ≤ line.length := by
  by_contra short
  have same : trim isWordBlank isWordBlank line = [] := by
    rw [trimCopy, snprintf_eq (Nat.lt_of_not_le short)] at empty
    exact empty
  refine filled ?_
  rw [← words_dropWhile]
  have stops := List.head?_dropWhile_not isWordBlank line
  cases left : line.dropWhile isWordBlank with
  | nil => rfl
  | cons first rest =>
    have blank := List.rdropWhile_eq_nil_iff.mp same first (by rw [left]; exact List.mem_cons_self)
    rw [left] at stops
    simp [blank] at stops

/-- Words reach the shell, and read like a line, when the first is no builtin. -/
theorem execTokens_reads (given : List CString) (text : CString) :
    (∃ command, execTokens given = .external command ∧ reading command = reading text) ↔
      given.head?.any builtins.contains = false ∧
        reading (joinLine lineSize given) = reading text := by
  unfold execTokens
  cases listed : given.head?.any builtins.contains with
  | true => simp
  | false => simp

/-- The first words of a line reach the shell, and read like the line, when single spaces may stand
for the gaps. -/
theorem parts_read {line name : CString} {gaps : List Gap} {dropped : CString}
    (parts : Parts line name gaps dropped) :
    (∃ command, execTokens (name :: gaps.map Gap.word) = .external command ∧
      reading command = reading (trimmed line)) ↔
      name ∉ builtins ∧ Harmless (Place.start.after name) gaps dropped := by
  have same : reading (joinLine lineSize (name :: gaps.map Gap.word)) = reading (trimmed line) ↔
      Harmless (Place.start.after name) gaps dropped := by
    rw [joinLine_fits (parts_fit parts), ← closed_eq, parts.2, reading, reading,
      Place.read_append, Place.read_append, List.append_cancel_left_eq]
    exact read_closed_iff _ _ _
  rw [execTokens_reads, same]
  simp

/-- `eval` hands over a command that reads like the line, or refuses it, exactly when it is kept. -/
theorem evalMeans_iff (state : State) (line : CString) :
    EvalMeans state line ↔ EvalKeeps state line := by
  refine forall₃_congr fun first begins outer => ?_
  by_cases empty : trimCopy lineSize line = []
  · have refused : evalHands state line = .error einval := by
      rw [evalHands, opsEval_empty empty]
      rfl
    have long := trimCopy_nil empty fun none => by rw [none] at begins; cases begins
    refine ⟨fun _ name gaps dropped parts => ?_, fun _ => .inl ⟨long, _, refused⟩⟩
    have none := parts.1
    rw [empty] at none
    cases none
  · have handed {name : CString} {gaps : List Gap} {dropped : CString}
        (parts : Parts line name gaps dropped) : evalHands state line =
          .ok (execTokens ((aliased state.aliases name (gaps.map Gap.word)).getD
            (name :: gaps.map Gap.word))) := by
      rw [evalHands, opsEval_result parts.1]
      rfl
    constructor
    · rintro (⟨-, rc, refused⟩ | ⟨command, got, reads⟩) name gaps dropped parts
      · rw [handed parts] at refused
        cases refused
      · rw [handed parts] at got
        have external := Except.ok.inj got
        cases found : aliased state.aliases name (gaps.map Gap.word) with
        | none =>
          rw [found] at external
          exact .inl ⟨rfl, (parts_read parts).mp ⟨command, external, reads⟩⟩
        | some given =>
          rw [found] at external
          exact .inr ⟨given, rfl, (execTokens_reads given _).mp ⟨command, external, reads⟩⟩
    · intro keeps
      obtain ⟨name, gaps, dropped, parts⟩ := parts_exist empty
      rw [handed parts]
      rcases keeps name gaps dropped parts with ⟨plain, harmless⟩ | ⟨given, found, reads⟩
      · obtain ⟨command, external, reads⟩ := (parts_read parts).mpr harmless
        exact .inr ⟨command, by rw [plain, Option.getD_none, external], reads⟩
      · obtain ⟨command, external, reads⟩ := (execTokens_reads given _).mpr reads
        exact .inr ⟨command, by rw [found, Option.getD_some, external], reads⟩

/-- What the shell gets means the same as the request, or the request is refused, exactly when
single spaces may stand for the gaps of the line and no argument needs quotes. -/
theorem handed_means_iff (state : State) :
    (∀ line, EvalMeans state line ↔ EvalKeeps state line) ∧
      ∀ argv, RunMeans state argv ↔ RunKeeps state argv :=
  ⟨evalMeans_iff state, runMeans_iff state⟩

/-- Two spaces between quotes become one, and an argument with a space becomes two. -/
theorem spaces_lost : ¬ EvalMeans .start (lit "printf \"a  b\"") ∧
    ¬ RunMeans .start [lit "touch", lit "a b"] := by
  constructor
  · rw [evalMeans_iff]
    intro keeps
    have parts : Parts (lit "printf \"a  b\"") (lit "printf")
        [⟨lit " ", lit "\"a", by decide, by decide, List.all_eq_true.mp (by decide),
            solid_of_all (by decide)⟩,
          ⟨lit "  ", lit "b\"", by decide, by decide, List.all_eq_true.mp (by decide),
            solid_of_all (by decide)⟩] [] :=
      ⟨by decide +kernel, by decide +kernel⟩
    rcases keeps (lit "printf") (by decide +kernel) ⟨by decide, by decide⟩ _ _ _ parts with
      ⟨-, -, -, single | ⟨-, left, -⟩, -⟩ | ⟨given, found, -⟩
    · exact absurd single (by decide)
    · exact absurd left (by decide +kernel)
    · cases found
  · rw [runMeans_iff]
    intro keeps
    have alone := (keeps (lit "touch") [lit "a b"] rfl ⟨by decide, by decide⟩ (by decide)).2.2.2
    exact absurd (alone (lit "a b") (by decide)) (by decide)

end HwrunOs.Shell
