import HwrunOs.Shell.Line

/-!
# Stores into the argument arrays

`split_tokens` stops at the size it is given and then stores a null pointer behind the words, also
when they fill the array. Its three callers give it arrays of just that size. So a call stays inside
of its arrays exactly when every text it splits has fewer words than the array has places.
-/

namespace HwrunOs.Shell

open HwrunOs.Bytes HwrunOs.Words

/-! ## Calls -/

/-- What a call leaves. -/
structure Attempt where
  /-- The state. -/
  state : State
  /-- The stores into its argument arrays, in order. -/
  stores : List Store
  /-- The words that `exec_tokens` gets, or an error. -/
  result : Except Int (List CString)

/-- A call that is refused before it stored anything. -/
def refuse (state : State) (rc : Int) : Attempt := ⟨state, [], .error rc⟩

/-- The value of an alias that is not empty. -/
def expansion (aliases : List Alias) (name : CString) : Option CString :=
  (aliasGet aliases name).filter fun value => !value.isEmpty

/-- The loop of `ops_eval` that puts words behind the value of an alias: it ends at the first that
does not fit. -/
def expandLine (exp : CString) : List CString → CString
  | [] => exp
  | arg :: rest =>
    if lineSize ≤ exp.length + arg.length + 2 then exp else expandLine (exp ++ 32 :: arg) rest

/-- `ops_eval`; the buffer for the output may be unusable. -/
def opsEval (state : State) (line : Option CString) (usable : Bool) : Attempt :=
  match line with
  | none => refuse state einval
  | some line =>
    if !usable then refuse state einval
    else
      let buf := trimCopy lineSize line
      if buf = [] then refuse state einval
      else
        let state := { state with history := historyAppend state.history buf }
        let given := splitTokens buf shellArgsMax
        match given.words with
        | [] => ⟨state, given.stores, .error einval⟩
        | name :: args =>
          match expansion state.aliases name with
          | some value =>
            let expanded := splitTokens (expandLine value args) shellArgsMax
            ⟨state, given.stores ++ expanded.stores,
              .ok (if expanded.words = [] then given.words else expanded.words)⟩
          | none => ⟨state, given.stores, .ok given.words⟩

/-- A loop that stores words while there is a place. -/
def fill (index : Nat) : List CString → Split
  | [] => ⟨[], []⟩
  | word :: rest =>
    if shellArgsMax ≤ index then ⟨[], []⟩
    else
      let next := fill (index + 1) rest
      ⟨word :: next.words, ⟨index, some word⟩ :: next.stores⟩

/-- `ops_run`. -/
def opsRun (state : State) (argv : Option (List CString)) : Attempt :=
  match argv with
  | none | some [] => refuse state einval
  | some (name :: args) =>
    if [] ∈ name :: args then refuse state einval
    else
      let av := fill 0 (name :: args)
      match expansion state.aliases name with
      | some value =>
        let vtok := splitTokens (snprintf lineSize value) shellArgsMax
        let front := fill 0 vtok.words
        let back := fill front.words.length (av.words.drop 1)
        ⟨state, av.stores ++ (vtok.stores ++ (front.stores ++ back.stores)),
          .ok (front.words ++ back.words)⟩
      | none => ⟨state, av.stores, .ok av.words⟩

/-! ## The claim and its condition -/

/-- All stores are inside of an array. -/
def Inside (length : Nat) (stores : List Store) : Prop := ∀ store ∈ stores, store.index < length

instance (length : Nat) (stores : List Store) : Decidable (Inside length stores) :=
  inferInstanceAs (Decidable (∀ store ∈ stores, _))

/-- There are fewer words than places, in the line and in what an alias makes of it. -/
def EvalFits (aliases : List Alias) (line : CString) : Prop :=
  (words isWordBlank (trimCopy lineSize line)).length < shellArgsMax ∧
    ∀ name args value, words isWordBlank (trimCopy lineSize line) = name :: args →
      expansion aliases name = some value →
        (words isWordBlank (expandLine value args)).length < shellArgsMax

/-- There are fewer words than places in the value of the alias that the first argument is. -/
def RunFits (aliases : List Alias) (argv : List CString) : Prop :=
  ∀ name args value, argv = name :: args → [] ∉ argv → expansion aliases name = some value →
    (words isWordBlank value).length < shellArgsMax

/-! ## Stores -/

@[simp] theorem inside_append {length : Nat} {front back : List Store} :
    Inside length (front ++ back) ↔ Inside length front ∧ Inside length back :=
  List.forall_mem_append

@[simp] theorem inside_nil {length : Nat} : Inside length [] := fun _ listed => nomatch listed

/-- The words that are returned are the first ones of the text. -/
theorem splitFrom_words (max argc : Nat) (p : CString) :
    (splitFrom max argc p).words = (words isWordBlank p).take (max - argc) := by
  fun_induction splitFrom max argc p with
  | case1 argc p left =>
    rw [← words_dropWhile, left, words_nil, List.take_nil]
  | case2 argc p first rest left full =>
    rw [Nat.sub_eq_zero_of_le full, List.take_zero]
  | case3 argc p first rest left room word next ih =>
    have solid : isWordBlank first = false := by
      have head := List.head?_dropWhile_not isWordBlank p
      rw [left] at head
      simpa using head
    have places : max - argc = max - (argc + 1) + 1 := by omega
    rw [← words_dropWhile, left, words_takeWhile solid, places, List.take_succ_cons, ← ih]

/-- The stores are inside exactly when the null pointer behind the words is. -/
theorem splitFrom_inside (max argc : Nat) (p : CString) (length : Nat) :
    Inside length (splitFrom max argc p).stores ↔
      argc + (splitFrom max argc p).words.length < length := by
  fun_induction splitFrom max argc p with
  | case1 argc p left => simp [Inside]
  | case2 argc p first rest left full => simp [Inside]
  | case3 argc p first rest left room word next ih =>
    have steps : Inside length (⟨argc, some word⟩ :: next.stores) ↔
        argc < length ∧ Inside length next.stores := List.forall_mem_cons
    have later : Inside length next.stores ↔ argc + 1 + next.words.length < length := ih
    rw [steps, later, List.length_cons]
    omega

/-- `split_tokens` stays inside of an array of the size it is given exactly when the text has fewer
words. -/
theorem splitTokens_inside (buf : CString) (max : Nat) :
    Inside max (splitTokens buf max).stores ↔ (words isWordBlank buf).length < max := by
  rw [splitTokens, splitFrom_inside, splitFrom_words, List.length_take]
  omega

/-- When there are fewer words than places, all are returned. -/
theorem splitTokens_words {buf : CString} {max : Nat}
    (fits : (words isWordBlank buf).length < max) :
    (splitTokens buf max).words = words isWordBlank buf := by
  rw [splitTokens, splitFrom_words, List.take_of_length_le (by omega)]

/-- A loop that asks for a place stays inside. -/
theorem fill_inside (index : Nat) (args : List CString) :
    Inside shellArgsMax (fill index args).stores := by
  induction args generalizing index with
  | nil => exact inside_nil
  | cons word rest ih =>
    unfold fill
    split
    · exact inside_nil
    · rename_i room
      exact List.forall_mem_cons.mpr ⟨Nat.lt_of_not_le room, ih (index + 1)⟩

/-- The value of an alias fits the buffer it is copied to. -/
theorem expansion_fits {aliases : List Alias} {name value : CString}
    (found : expansion aliases name = some value) : snprintf lineSize value = value := by
  obtain ⟨got, -⟩ := Option.filter_eq_some_iff.mp found
  obtain ⟨entry, -, rfl⟩ := Option.map_eq_some_iff.mp got
  exact snprintf_eq (Nat.lt_trans entry.value.property (by decide))

/-! ## The callers -/

/-- A text that is trimmed to nothing has no words. -/
theorem opsEval_empty {state : State} {line : CString} (empty : trimCopy lineSize line = []) :
    opsEval state (some line) true = refuse state einval := by
  simp [opsEval, empty]

/-- What `ops_eval` stores for an alias. -/
def aliasStores (aliases : List Alias) : List CString → List Store
  | [] => []
  | name :: args =>
    match expansion aliases name with
    | some value => (splitTokens (expandLine value args) shellArgsMax).stores
    | none => []

/-- `ops_eval` stores the words of the line, and then those of the expanded line. -/
theorem opsEval_stores {state : State} {line : CString} (filled : trimCopy lineSize line ≠ []) :
    (opsEval state (some line) true).stores =
      (splitTokens (trimCopy lineSize line) shellArgsMax).stores ++
        aliasStores state.aliases (splitTokens (trimCopy lineSize line) shellArgsMax).words := by
  unfold opsEval aliasStores
  dsimp only
  rw [if_neg (by decide), if_neg filled]
  split
  · exact (List.append_nil _).symm
  · split
    · rfl
    · exact (List.append_nil _).symm

/-- The stores for an alias are inside exactly when the expanded line has fewer words than
places. -/
theorem aliasStores_inside (aliases : List Alias) (given : List CString) :
    Inside shellArgsMax (aliasStores aliases given) ↔
      ∀ name args value, given = name :: args → expansion aliases name = some value →
        (words isWordBlank (expandLine value args)).length < shellArgsMax := by
  cases given with
  | nil => exact ⟨fun _ _ _ _ listed => (nomatch listed), fun _ => inside_nil⟩
  | cons name args =>
    unfold aliasStores
    dsimp only
    cases found : expansion aliases name with
    | none =>
      constructor
      · rintro - _ _ value ⟨⟩ other
        rw [found] at other
        cases other
      · exact fun _ => inside_nil
    | some value =>
      dsimp only
      rw [splitTokens_inside]
      constructor
      · rintro fits _ _ _ ⟨⟩ same
        rw [found] at same
        obtain rfl := Option.some.inj same
        exact fits
      · exact fun fits => fits name args value rfl found

/-- `ops_eval` stays inside exactly when there are fewer words than places. -/
theorem opsEval_inside (state : State) (line : CString) :
    Inside shellArgsMax (opsEval state (some line) true).stores ↔
      EvalFits state.aliases line := by
  by_cases empty : trimCopy lineSize line = []
  · rw [opsEval_empty empty]
    constructor
    · intro _
      unfold EvalFits
      rw [empty, words_nil]
      exact ⟨by decide, fun _ _ _ listed => nomatch listed⟩
    · exact fun _ => inside_nil
  · rw [opsEval_stores empty, inside_append, splitTokens_inside]
    refine and_congr_right fun fits => ?_
    rw [splitTokens_words fits, aliasStores_inside]

/-- `ops_run` stays inside exactly when the value of an alias has fewer words than places. -/
theorem opsRun_inside (state : State) (argv : List CString) :
    Inside shellArgsMax (opsRun state (some argv)).stores ↔ RunFits state.aliases argv := by
  unfold opsRun
  cases argv with
  | nil => exact ⟨fun _ _ _ _ listed => (nomatch listed), fun _ => inside_nil⟩
  | cons name args =>
    dsimp only
    by_cases empty : [] ∈ name :: args
    · rw [if_pos empty]
      exact ⟨fun _ _ _ _ listed filled => absurd (listed ▸ empty) filled, fun _ => inside_nil⟩
    · rw [if_neg empty]
      cases found : expansion state.aliases name with
      | none =>
        constructor
        · rintro - _ _ value ⟨⟩ - other
          rw [found] at other
          cases other
        · exact fun _ => fill_inside 0 _
      | some value =>
        dsimp only
        rw [expansion_fits found, inside_append, inside_append, inside_append, splitTokens_inside]
        constructor
        · rintro ⟨-, fits, -⟩ _ _ _ ⟨⟩ - same
          rw [found] at same
          obtain rfl := Option.some.inj same
          exact fits
        · intro fits
          exact ⟨fill_inside 0 _, fits name args value rfl empty found, fill_inside 0 _,
            fill_inside _ _⟩

/-- The splitting and its three callers stay inside of their arrays exactly when every text that is
split has fewer words than the array has places. -/
theorem arguments_inside_iff (state : State) :
    (∀ buf max, Inside max (splitTokens buf max).stores ↔ (words isWordBlank buf).length < max) ∧
      (∀ line usable, Inside shellArgsMax (opsEval state line usable).stores ↔
        ∀ text, line = some text → usable = true → EvalFits state.aliases text) ∧
      ∀ argv, Inside shellArgsMax (opsRun state argv).stores ↔
        ∀ args, argv = some args → RunFits state.aliases args := by
  refine ⟨splitTokens_inside, ?_, ?_⟩
  · intro line usable
    cases line with
    | none => exact ⟨fun _ _ given => (nomatch given), fun _ => inside_nil⟩
    | some text =>
      cases usable with
      | false => exact ⟨fun _ _ _ impossible => (nomatch impossible), fun _ => inside_nil⟩
      | true =>
        rw [opsEval_inside]
        constructor
        · rintro fits _ ⟨⟩ -
          exact fits
        · exact fun fits => fits text rfl rfl
  · intro argv
    cases argv with
    | none => exact ⟨fun _ _ given => (nomatch given), fun _ => inside_nil⟩
    | some args =>
      rw [opsRun_inside]
      constructor
      · rintro fits _ ⟨⟩
        exact fits
      · exact fun fits => fits args rfl

/-- A line of as many words as the array has places. -/
def fullLine : CString := (List.replicate 64 (lit "a ")).flatten

/-- A shell with an alias whose value has as many words. -/
def aliasedShell : State := (aliasSet .start (some (lit "ll")) (some fullLine)).1

/-- Each of the three callers stores the null pointer behind its array. -/
theorem full_line_outside :
    ¬ Inside shellArgsMax (opsEval .start (some fullLine) true).stores ∧
      ¬ Inside shellArgsMax (opsEval aliasedShell (some (lit "ll")) true).stores ∧
      ¬ Inside shellArgsMax (opsRun aliasedShell (some [lit "ll"])).stores := by
  have many : ¬ (words isWordBlank fullLine).length < shellArgsMax := by decide +kernel
  have found : expansion aliasedShell.aliases (lit "ll") = some fullLine := by decide +kernel
  refine ⟨?_, ?_, ?_⟩
  · rw [opsEval_inside]
    intro fits
    exact absurd fits.1 (by decide +kernel)
  · rw [opsEval_inside]
    intro fits
    exact many (fits.2 (lit "ll") [] fullLine (by decide +kernel) found)
  · rw [opsRun_inside]
    intro fits
    exact many (fits (lit "ll") [] fullLine rfl (by decide) found)

end HwrunOs.Shell
