import HwrunOs.Library.Runs
import HwrunOs.Library.Tables
import HwrunOs.Shell.Eval

/-!
# Sessions

What a shell keeps from one call to the next is its history and its aliases: a ring and a table with
64 places, searched from the front. Seen from outside they are the lines of the session and a finite
map, as long as the names that are set fit their field: a longer name is accepted, but stored cut,
and not found again.
-/

namespace HwrunOs.Shell

open HwrunOs.Bytes HwrunOs.Words HwrunOs.Runs HwrunOs.Tables

/-! ## Calls -/

/-- A call that may change the state. -/
inductive SessionCall where
  /-- `eval`. -/
  | eval (line : CString)
  /-- `alias_set`. -/
  | aliasSet (name value : Option CString)
  /-- `alias_clear`. -/
  | aliasClear
  /-- `history_append` or `history_clear`. -/
  | history (call : HistoryCall)

/-- The shell after a call, with the return code; what it writes is left out. -/
def sessionCall (surroundings : Surroundings) (state : State) : SessionCall → State × Int
  | .eval line =>
    ((evalText surroundings state line).state, (evalText surroundings state line).rc)
  | .aliasSet name value => aliasSet state name value
  | .aliasClear => ({ state with aliases := [] }, 0)
  | .history call =>
    ({ state with history := (historyCall state.history call).1 },
      (historyCall state.history call).2)

/-- The shell after a call. -/
def sessionStep (surroundings : Surroundings) (state : State) (call : SessionCall) : State :=
  (sessionCall surroundings state call).1

/-! ## Words -/

/-- The words of a line, when names stand for what they expand to. -/
def wordsOf (expand : CString → Option CString) (line : CString) : Option (List CString) :=
  match (splitTokens (trimCopy lineSize line) shellArgsMax).words with
  | [] => none
  | name :: args =>
    match expand name with
    | none => some (name :: args)
    | some value =>
      let expanded := (splitTokens (expandLine value args) shellArgsMax).words
      some (if expanded = [] then name :: args else expanded)

/-- The alias that some words set. -/
def setBy : List CString → Option (CString × CString)
  | name :: arg :: _ => if name = lit "alias" then cutAt 61 arg else none
  | _ => none

/-- What `ops_eval` makes of a line: an error that leaves no trace, or one more line and words. -/
theorem opsEval_words (state : State) (line : CString) :
    (trimCopy lineSize line = [] ∧ opsEval state (some line) true = refuse state einval) ∨
      (trimCopy lineSize line ≠ [] ∧
        (opsEval state (some line) true).state =
          { state with history := historyAppend state.history (trimCopy lineSize line) } ∧
        (opsEval state (some line) true).result =
          match wordsOf (expansion state.aliases) line with
          | none => .error einval
          | some words => .ok words) := by
  by_cases empty : trimCopy lineSize line = []
  · exact .inl ⟨empty, opsEval_empty empty⟩
  · refine .inr ⟨empty, ?_⟩
    unfold opsEval wordsOf
    dsimp only
    rw [if_neg (by simp), if_neg empty]
    cases (splitTokens (trimCopy lineSize line) shellArgsMax).words with
    | nil => exact ⟨rfl, rfl⟩
    | cons name args =>
      dsimp only
      cases expansion state.aliases name with
      | none => exact ⟨rfl, rfl⟩
      | some value => exact ⟨rfl, rfl⟩

/-- Words leave the state as it is, unless they set an alias. -/
theorem execText_state (surroundings : Surroundings) (state : State) (words : List CString) :
    (execText surroundings state words).state =
      match setBy words with
      | none => state
      | some (name, value) => (aliasSet state (some name) (some value)).1 := by
  cases words with
  | nil => rfl
  | cons name args =>
    unfold execText
    dsimp only
    by_cases called : name = lit "alias"
    · have built : builtin surroundings state name args = some (cmdAlias state args) := by
        rw [called]
        rfl
      rw [built]
      cases args with
      | nil => rfl
      | cons arg rest =>
        simp only [setBy, called, if_true, cmdAlias]
        cases cutAt 61 arg with
        | some pair => rfl
        | none => cases aliasGet state.aliases arg <;> rfl
    · have unset : setBy (name :: args) = none := by
        cases args with
        | nil => rfl
        | cons arg rest => exact if_neg called
      rw [unset]
      cases built : builtin surroundings state name args with
      | none =>
        dsimp only
        cases surroundings.child (joinLine lineSize (name :: args)) <;> rfl
      | some written =>
        dsimp only
        unfold builtin at built
        rw [if_neg called] at built
        split_ifs at built
        all_goals rw [← Option.some.inj built]
        unfold cmdPwd
        cases surroundings.cwd <;> rfl

/-! ## The session -/

/-- What a session is: the lines since the history was cleared, and the aliases. -/
structure Session where
  /-- The lines. -/
  lines : List CString
  /-- The aliases by their names. -/
  aliases : Finmap fun _ : CString => Alias

/-- A session before the first call. -/
def Session.start : Session := ⟨[], ∅⟩

/-- The name of an alias. -/
def Alias.key (entry : Alias) : CString := entry.name.val

/-- What a name expands to: the value of its alias, when that is not empty. -/
def Session.expand (session : Session) (name : CString) : Option CString :=
  ((session.aliases.lookup name).map fun entry => entry.value.val).filter fun value =>
    !value.isEmpty

/-- An alias is set: a name may not be empty, nor have a space or an equals sign, and there are at
most 64 names. -/
def Session.set (session : Session) (name value : Option CString) : Session × Int :=
  match name, value with
  | some name, some value =>
    if name = [] ∨ 61 ∈ name ∨ 32 ∈ name then (session, einval)
    else if name ∈ session.aliases ∨ session.aliases.keys.card < 64 then
      ({ session with
          aliases := session.aliases.insert name ⟨Field.copy name, Field.copy value⟩ }, 0)
    else (session, enospc)
  | _, _ => (session, einval)

/-- A line that is evaluated is one more line, and may set an alias. -/
def Session.eval (session : Session) (line : CString) : Session :=
  if trimCopy lineSize line = [] then session
  else
    match (wordsOf session.expand line).bind setBy with
    | none => { session with lines := session.lines ++ [trimCopy lineSize line] }
    | some (name, value) =>
      (Session.set { session with lines := session.lines ++ [trimCopy lineSize line] }
        (some name) (some value)).1

/-- The session after a call. -/
def Session.step (session : Session) : SessionCall → Session
  | .eval line => session.eval line
  | .aliasSet name value => (session.set name value).1
  | .aliasClear => { session with aliases := ∅ }
  | .history (.append line) =>
    { session with lines := session.lines ++ (HistoryCall.append line).line.toList }
  | .history .clear => { session with lines := [] }

/-- The name that a call sets. -/
def nameSet (state : State) : SessionCall → Option CString
  | .eval line => ((wordsOf (expansion state.aliases) line).bind setBy).map Prod.fst
  | .aliasSet name _ => name
  | _ => none

/-- A name that is set fits its field. -/
def NameFits (state : State) (call : SessionCall) : Prop :=
  ∀ name ∈ nameSet state call, name.length < 64

/-- The state of a shell stands for a session. -/
structure Stands (session : Session) (state : State) : Prop where
  /-- The ring keeps the last lines. -/
  lines : state.history.Holds session.lines
  /-- The table is the map. -/
  aliases : Represents Alias.key state.aliases session.aliases

/-! ## Aliases -/

/-- What `alias_get` finds is what the map holds. -/
theorem Stands.aliasGet {session : Session} {state : State} (stands : Stands session state)
    (name : CString) :
    Shell.aliasGet state.aliases name =
      (session.aliases.lookup name).map fun entry => entry.value.val := by
  unfold Shell.aliasGet
  rw [stands.aliases.find]
  intro entry
  exact beq_iff_eq

/-- Names expand as they do in the session. -/
theorem Stands.expand {session : Session} {state : State} (stands : Stands session state) :
    expansion state.aliases = session.expand := by
  funext name
  unfold expansion Session.expand
  rw [stands.aliasGet]

/-- The place that `alias_set` finds. -/
theorem modify_found {α : Type} {list : List α} {matching : α → Bool} {index : Nat}
    (found : list.findIdx? matching = some index) (change : α → α) :
    ∃ front old back, list = front ++ old :: back ∧ matching old = true ∧
      list.modify index change = front ++ change old :: back := by
  induction list generalizing index with
  | nil => cases found
  | cons first rest ih =>
    rw [List.findIdx?_cons] at found
    by_cases here : matching first = true
    · rw [if_pos here] at found
      rw [← Option.some.inj found]
      exact ⟨[], first, rest, rfl, here, rfl⟩
    · rw [if_neg here, Option.map_eq_some_iff] at found
      obtain ⟨later, place, same⟩ := found
      obtain ⟨front, old, back, whole, matched, changed⟩ := ih place
      refine ⟨first :: front, old, back, by rw [whole]; rfl, matched, ?_⟩
      rw [← same, List.modify_succ_cons, changed]
      rfl

/-- `alias_set` of a name that fits does to the table what setting it does to the session. -/
theorem Stands.set {session : Session} {state : State} (stands : Stands session state)
    {name : Option CString} (fits : ∀ text ∈ name, text.length < 64) (value : Option CString) :
    Stands (session.set name value).1 (aliasSet state name value).1 ∧
      (aliasSet state name value).2 = (session.set name value).2 := by
  cases name with
  | none => exact ⟨stands, rfl⟩
  | some name =>
    cases value with
    | none => exact ⟨stands, rfl⟩
    | some value =>
      have whole : (Field.copy name : Field 64).val = name := snprintf_eq (fits name rfl)
      unfold aliasSet Session.set
      dsimp only
      by_cases refused : name = [] ∨ 61 ∈ name ∨ 32 ∈ name
      · rw [if_pos refused]
        by_cases empty : name = []
        · rw [if_pos empty]
          exact ⟨stands, rfl⟩
        · rw [if_neg empty, if_pos (refused.resolve_left empty)]
          exact ⟨stands, rfl⟩
      · rw [if_neg refused, if_neg fun empty => refused (.inl empty),
          if_neg fun broken => refused (.inr broken)]
        cases found : state.aliases.findIdx? fun entry => entry.name.val == name with
        | some index =>
          obtain ⟨front, old, back, table, matched, changed⟩ :=
            modify_found found fun entry => { entry with value := Field.copy value }
          have same : old.key = name := beq_iff_eq.mp matched
          have oldName : old.name = Field.copy name := Subtype.ext (same.trans whole.symm)
          have known : name ∈ session.aliases := by
            rw [stands.aliases.mem_iff, table]
            exact List.mem_map.mpr ⟨old, by simp, same⟩
          rw [if_pos (.inl known)]
          refine ⟨⟨stands.lines, ?_⟩, rfl⟩
          have represents := stands.aliases
          rw [table] at represents
          have keyed : Alias.key ⟨Field.copy name, Field.copy value⟩ = old.key :=
            whole.trans same.symm
          have replaced := represents.replace keyed
          dsimp only
          rw [changed, oldName]
          unfold Alias.key at replaced
          rw [whole] at replaced
          exact replaced
        | none =>
          have absent : name ∉ state.aliases.map Alias.key := by
            intro listed
            obtain ⟨entry, member, same⟩ := List.mem_map.mp listed
            have unmatched := List.findIdx?_eq_none_iff.mp found entry member
            rw [beq_eq_false_iff_ne] at unmatched
            exact unmatched same
          have unknown : name ∉ session.aliases := by
            rw [stands.aliases.mem_iff]
            exact absent
          have size := stands.aliases.card
          dsimp only
          by_cases full : shellAliasMax ≤ state.aliases.length
          · rw [if_pos full, if_neg (not_or.mpr ⟨unknown, by unfold shellAliasMax at full; omega⟩)]
            exact ⟨stands, rfl⟩
          · rw [if_neg full, if_pos (.inr (by unfold shellAliasMax at full; omega))]
            refine ⟨⟨stands.lines, ?_⟩, rfl⟩
            have fresh : Alias.key ⟨Field.copy name, Field.copy value⟩ ∉
                state.aliases.map Alias.key := by
              unfold Alias.key
              rw [whole]
              exact absent
            have pushed := stands.aliases.push fresh
            unfold Alias.key at pushed
            rw [whole] at pushed
            exact pushed

/-! ## Runs -/

/-- One more line in the history. -/
theorem Stands.line {session : Session} {state : State} (stands : Stands session state)
    (line : CString) :
    Stands { session with lines := session.lines ++ [line] }
      { state with history := historyAppend state.history line } :=
  ⟨historyAppend_holds stands.lines line, stands.aliases⟩

/-- `eval` does to the state what it does to the session. -/
theorem Stands.eval {session : Session} {state : State} (stands : Stands session state)
    (surroundings : Surroundings) {line : CString} (fits : NameFits state (.eval line)) :
    Stands (session.eval line) (evalText surroundings state line).state := by
  unfold evalText Session.eval
  dsimp only
  rcases opsEval_words state line with ⟨empty, refused⟩ | ⟨filled, next, words⟩
  · rw [refused, if_pos empty]
    exact stands
  · rw [if_neg filled, words, next, ← stands.expand]
    have more := stands.line (trimCopy lineSize line)
    have fits : ∀ name ∈ ((wordsOf (expansion state.aliases) line).bind setBy).map Prod.fst,
        name.length < 64 := fits
    cases given : wordsOf (expansion state.aliases) line with
    | none => exact more
    | some argv =>
      rw [given] at fits
      dsimp only [Option.bind_some] at fits ⊢
      rw [execText_state]
      cases sets : setBy argv with
      | none => exact more
      | some pair =>
        rw [sets] at fits
        exact (more.set fits (some pair.2)).1

/-- A call does to the state what it does to the session. -/
theorem Stands.step {session : Session} {state : State} (stands : Stands session state)
    (surroundings : Surroundings) {call : SessionCall} (fits : NameFits state call) :
    Stands (session.step call) (sessionStep surroundings state call) := by
  cases call with
  | eval line => exact stands.eval surroundings fits
  | aliasSet name value => exact (stands.set fits value).1
  | aliasClear => exact ⟨stands.lines, Represents.nil⟩
  | history call =>
    refine ⟨?_, ?_⟩
    · cases call with
      | clear => exact Rings.Keeps.empty _ _
      | append line =>
        cases line with
        | none =>
          show state.history.Holds (session.lines ++ [])
          rw [List.append_nil]
          exact stands.lines
        | some line =>
          cases line with
          | nil =>
            show state.history.Holds (session.lines ++ [])
            rw [List.append_nil]
            exact stands.lines
          | cons first rest => exact historyAppend_holds stands.lines (first :: rest)
    · cases call with
      | clear => exact stands.aliases
      | append line => exact stands.aliases

/-- A run does to the state what it does to the session. -/
theorem Stands.run {session : Session} {state : State} (stands : Stands session state)
    (surroundings : Surroundings) {calls : List SessionCall}
    (fits : AllSteps (sessionStep surroundings) NameFits state calls) :
    Stands (Runs.run Session.step session calls)
      (Runs.run (sessionStep surroundings) state calls) := by
  induction calls generalizing session state with
  | nil => exact stands
  | cons call rest ih => exact ih (stands.step surroundings fits.1) fits.2

/-- What is seen of a shell that stands for a session: what names expand to, the history, and what a
call that sets an alias returns. -/
structure Shows (session : Session) (state : State) : Prop where
  /-- `alias_get` finds the value of the map. -/
  aliases : ∀ name, Shell.aliasGet state.aliases name =
    (session.aliases.lookup name).map fun entry => entry.value.val
  /-- `alias_count` is the number of names. -/
  count : state.aliases.length = session.aliases.keys.card
  /-- `history_count` is the number of lines, up to 100. -/
  lines : historyCount state.history = min 100 session.lines.length
  /-- `history_get` gives the last lines, from the oldest on. -/
  line : ∀ index line, (session.lines.drop (session.lines.length - 100))[index]? = some line →
    ∀ cap, historyGet state.history (index : Nat) (some (cap + 1)) =
      (0, some (snprintf (cap + 1) (line.take 254)))
  /-- `alias_set` of a name that fits returns what the session calls for. -/
  set : ∀ name value, (∀ text ∈ name, text.length < 64) →
    (Shell.aliasSet state name value).2 = (session.set name value).2

/-- Everything is seen of a session that a shell stands for. -/
theorem Stands.shows {session : Session} {state : State} (stands : Stands session state) :
    Shows session state where
  aliases := stands.aliasGet
  count := stands.aliases.card.symm
  lines := stands.lines.counted
  line _ _ found cap := historyGet_found stands.lines found cap
  set _ value fits := (stands.set fits value).2

/-- A line sets an alias, and the next one uses it. -/
def aliasCalls : List SessionCall :=
  [.eval (lit "alias ll=ls"), .aliasSet (some (lit "cd")) (some (lit "pwd")), .eval (lit "ll -a")]

end HwrunOs.Shell
