import HwrunOs.Library.Runs

/-!
# Saving by replacement

A program keeps a state in memory and saves it as a text: it writes the text into a temporary file,
which then takes the place of the file. A save may fail, and the program may die at any time and
start again with what the file says. As long as no write is lost without a word, the file is the
text of a state that was saved as a whole, and a restart goes back to that state.
-/

namespace HwrunOs.Replace

open HwrunOs.Runs

variable {σ α β : Type*}

/-! ## Programs and disks -/

/-- A program that saves its state. -/
structure Saver (σ α β : Type*) where
  /-- The state without a file. -/
  first : σ
  /-- A change, or none when it is refused. -/
  change : σ → α → Option σ
  /-- The text of a state. -/
  text : σ → List β
  /-- The state that a text stands for. -/
  load : List β → σ

/-- The memory of the program and its files. -/
structure Disk (σ β : Type*) where
  /-- The state in memory. -/
  memory : σ
  /-- The file. -/
  file : Option (List β)
  /-- The temporary file. -/
  temp : Option (List β)
  /-- What is still to be written, while a save is under way. -/
  rest : Option (List β)
  /-- The state that was saved last. -/
  saved : Option σ
  /-- The state was changed since it was last saved or loaded. -/
  dirty : Bool

/-- What may happen next. -/
inductive Event (α : Type*) where
  /-- The state is changed. -/
  | change (action : α)
  /-- A save begins: the temporary file is opened and is empty. -/
  | openTemp
  /-- Some of the text is written. -/
  | write (count : Nat)
  /-- Some of the text is lost, and nobody is told. -/
  | lose (count : Nat)
  /-- The save fails, and the temporary file is removed. -/
  | fail
  /-- The temporary file takes the place of the file. -/
  | rename
  /-- The file is loaded. -/
  | reload
  /-- The program dies, and starts again. -/
  | crash

/-- The state that a start gives. -/
def Saver.read (saver : Saver σ α β) (file : Option (List β)) : σ :=
  (file.map saver.load).getD saver.first

/-- The memory and the files after an event; a change waits while a save is under way. -/
def Saver.step (saver : Saver σ α β) (disk : Disk σ β) : Event α → Disk σ β
  | .change action =>
    match disk.rest, saver.change disk.memory action with
    | none, some next => { disk with memory := next, dirty := true }
    | _, _ => disk
  | .openTemp =>
    match disk.rest with
    | none => { disk with temp := some [], rest := some (saver.text disk.memory) }
    | some _ => disk
  | .write count =>
    match disk.rest with
    | some rest =>
      { disk with temp := disk.temp.map (· ++ rest.take count), rest := some (rest.drop count) }
    | none => disk
  | .lose count =>
    match disk.rest with
    | some rest => { disk with rest := some (rest.drop count) }
    | none => disk
  | .fail =>
    match disk.rest with
    | some _ => { disk with temp := none, rest := none }
    | none => disk
  | .rename =>
    match disk.rest with
    | some [] =>
      { disk with
        file := disk.temp
        temp := none
        rest := none
        saved := some disk.memory
        dirty := false }
    | _ => disk
  | .reload =>
    match disk.rest, disk.file with
    | none, some file => { disk with memory := saver.load file, dirty := false }
    | _, _ => disk
  | .crash => { disk with memory := saver.read disk.file, rest := none, dirty := false }

/-- A program that has never run. -/
def Saver.start (saver : Saver σ α β) : Disk σ β :=
  ⟨saver.first, none, none, none, none, false⟩

/-- No write is lost without a word, and changes are as they should be. -/
def Event.Fair (good : α → Prop) : Event α → Prop
  | .lose _ => False
  | .change action => good action
  | _ => True

/-! ## What is kept -/

/-- A program that gets back from a text what it needs. -/
structure Saver.Restores (saver : Saver σ α β) (valid : σ → Prop) (good : α → Prop)
    (same : σ → σ → Prop) : Prop where
  /-- The first state is valid. -/
  first : valid saver.first
  /-- Changes keep a state valid. -/
  change : ∀ state action next, valid state → good action →
    saver.change state action = some next → valid next
  /-- A state that is loaded is valid. -/
  load : ∀ state, valid state → valid (saver.load (saver.text state))
  /-- A state is the same as itself. -/
  refl : ∀ state, same state state
  /-- A state that is loaded is the same as the one that was saved. -/
  back : ∀ state, valid state → same (saver.load (saver.text state)) state

/-- The file is the text of the state that was saved last, and what is in memory is that state
unless it was changed since. -/
structure Saver.Intact (saver : Saver σ α β) (valid : σ → Prop) (same : σ → σ → Prop)
    (disk : Disk σ β) : Prop where
  /-- The file is the text of a whole state. -/
  file : disk.file = disk.saved.map saver.text
  /-- The state is valid. -/
  memory : valid disk.memory
  /-- So is the one that was saved. -/
  saved : ∀ state ∈ disk.saved, valid state
  /-- What is written and what is to be written is the text of the state. -/
  writes : ∀ rest, disk.rest = some rest →
    ∃ written, disk.temp = some written ∧ written ++ rest = saver.text disk.memory
  /-- A state that was not changed is what a start would give. -/
  clean : disk.dirty = false → same (saver.read disk.file) disk.memory

variable {saver : Saver σ α β} {valid : σ → Prop} {good : α → Prop} {same : σ → σ → Prop}
  {disk : Disk σ β}

/-- A program that has never run has nothing to lose. -/
theorem Saver.Restores.start (restores : saver.Restores valid good same) :
    saver.Intact valid same saver.start where
  file := rfl
  memory := restores.first
  saved := by
    intro state saved
    cases saved
  writes := by
    intro rest writing
    cases writing
  clean _ := restores.refl _

/-- What a start gives is valid. -/
theorem Saver.Restores.read_valid (restores : saver.Restores valid good same)
    (intact : saver.Intact valid same disk) : valid (saver.read disk.file) := by
  rw [intact.file]
  cases saved : disk.saved with
  | none => exact restores.first
  | some state => exact restores.load state (intact.saved state saved)

/-- Every event that is fair keeps the file whole. -/
theorem Saver.Restores.step (restores : saver.Restores valid good same)
    (intact : saver.Intact valid same disk) (event : Event α) (fair : event.Fair good) :
    saver.Intact valid same (saver.step disk event) := by
  cases event with
  | change action =>
    unfold Saver.step
    dsimp only
    split
    · rename_i next idle changed
      refine ⟨intact.file, ?_, intact.saved, ?_, ?_⟩
      · exact restores.change disk.memory action next intact.memory fair changed
      · intro rest writing
        dsimp only at writing
        rw [idle] at writing
        cases writing
      · intro clean
        cases clean
    · exact intact
  | openTemp =>
    unfold Saver.step
    dsimp only
    split
    · refine ⟨intact.file, intact.memory, intact.saved, ?_, intact.clean⟩
      intro rest writing
      exact ⟨[], rfl, (Option.some.inj writing).symm⟩
    · exact intact
  | write count =>
    unfold Saver.step
    dsimp only
    split
    · rename_i rest writing
      obtain ⟨written, temp, whole⟩ := intact.writes rest writing
      refine ⟨intact.file, intact.memory, intact.saved, ?_, intact.clean⟩
      intro left leaves
      refine ⟨written ++ rest.take count, ?_, ?_⟩
      · dsimp only
        rw [temp, Option.map_some]
      · rw [← Option.some.inj leaves, List.append_assoc, List.take_append_drop]
        exact whole
    · exact intact
  | lose count => exact fair.elim
  | fail =>
    unfold Saver.step
    dsimp only
    split
    · refine ⟨intact.file, intact.memory, intact.saved, ?_, intact.clean⟩
      intro rest writing
      cases writing
    · exact intact
  | rename =>
    unfold Saver.step
    dsimp only
    split
    · rename_i writing
      obtain ⟨written, temp, whole⟩ := intact.writes [] writing
      rw [List.append_nil] at whole
      refine ⟨?_, intact.memory, ?_, ?_, ?_⟩
      · dsimp only
        rw [temp, whole, Option.map_some]
      · intro state saved
        rw [← Option.some.inj saved]
        exact intact.memory
      · intro rest left
        cases left
      · intro _
        dsimp only
        rw [temp, whole]
        exact restores.back disk.memory intact.memory
    · exact intact
  | reload =>
    unfold Saver.step
    dsimp only
    split
    · rename_i file idle named
      have loaded := restores.read_valid intact
      rw [named] at loaded
      refine ⟨intact.file, loaded, intact.saved, ?_, ?_⟩
      · intro rest writing
        dsimp only at writing
        rw [idle] at writing
        cases writing
      · intro _
        dsimp only
        rw [named]
        exact restores.refl _
    · exact intact
  | crash =>
    refine ⟨intact.file, restores.read_valid intact, intact.saved, ?_, fun _ => restores.refl _⟩
    intro rest writing
    cases writing

/-- In every fair run the file stays whole. -/
theorem Saver.Restores.run (restores : saver.Restores valid good same) {events : List (Event α)}
    (fair : ∀ event ∈ events, event.Fair good) :
    AllStates saver.step (saver.Intact valid same) saver.start events := by
  apply allStates_of_steps _ restores.start (allSteps_of_mem fair _)
  intro disk event intact isFair
  exact restores.step intact event isFair

/-- A start gives the state that was saved last. -/
theorem Saver.Restores.crash (restores : saver.Restores valid good same)
    (intact : saver.Intact valid same disk) :
    same (saver.step disk .crash).memory (disk.saved.getD saver.first) := by
  show same (saver.read disk.file) _
  rw [intact.file]
  cases saved : disk.saved with
  | none => exact restores.refl _
  | some state => exact restores.back state (intact.saved state saved)

end HwrunOs.Replace
