import HwrunOs.Library.Runs

/-!
# Critical sections

Threads share data and enter critical sections, which they leave part by part while other threads
go on. A section is exclusive, or it is shared and only reads. As long as no other thread is inside
with an exclusive section, the threads cannot tell: what they find and leave is what the sections
give when each is run as a whole, in the order in which they were entered.
-/

namespace HwrunOs.Sections

variable {τ σ κ : Type*}

/-! ## Sections -/

/-- How a section keeps others out. -/
inductive Mode where
  /-- Other shared sections may be open. -/
  | shared
  /-- No other section may be open. -/
  | exclusive
  deriving DecidableEq

/-- A part of a section: it changes the shared data and what its thread keeps. -/
abbrev Part (σ κ : Type*) := σ → κ → σ × κ

/-- A part that leaves the shared data alone. -/
def Reads (part : Part σ κ) : Prop := ∀ data kept, (part data kept).1 = data

/-- A critical section. -/
structure Section (σ κ : Type*) where
  /-- How it keeps others out. -/
  mode : Mode
  /-- What it does, in order. -/
  parts : List (Part σ κ)
  /-- A shared section only reads. -/
  reads : mode = .shared → ∀ part ∈ parts, Reads part

/-- Some parts, one after another and with nothing in between. -/
def finish (parts : List (Part σ κ)) (data : σ) (kept : κ) : σ × κ :=
  parts.foldl (fun state part => part state.1 state.2) (data, kept)

@[simp] theorem finish_nil (data : σ) (kept : κ) : finish [] data kept = (data, kept) := rfl

@[simp] theorem finish_cons (part : Part σ κ) (rest : List (Part σ κ)) (data : σ) (kept : κ) :
    finish (part :: rest) data kept = finish rest (part data kept).1 (part data kept).2 := rfl

/-- Parts that only read leave the data alone. -/
theorem finish_reads {parts : List (Part σ κ)} (reads : ∀ part ∈ parts, Reads part) (data : σ)
    (kept : κ) : (finish parts data kept).1 = data := by
  induction parts generalizing kept with
  | nil => rfl
  | cons part rest ih =>
    rw [finish_cons, reads part (.head _)]
    exact ih (fun later listed => reads later (.tail _ listed)) _

/-! ## Threads -/

/-- The shared data, and what each thread keeps. -/
@[ext] structure Whole (τ σ κ : Type*) where
  /-- What all threads share. -/
  data : σ
  /-- What each thread keeps. -/
  kept : τ → κ

/-- Where a thread is. -/
inductive Place (σ κ : Type*) where
  /-- In no section. -/
  | outside
  /-- In a section, with some parts still to be run. -/
  | inside (mode : Mode) (rest : List (Part σ κ))

/-- The shared data, and the threads in their sections. -/
structure World (τ σ κ : Type*) where
  /-- What all threads share. -/
  data : σ
  /-- What each thread keeps. -/
  kept : τ → κ
  /-- Where each thread is. -/
  places : τ → Place σ κ
  /-- The sections that were entered, oldest first. -/
  entered : List (τ × Section σ κ)

/-- A world before any section. -/
def Whole.world (start : Whole τ σ κ) : World τ σ κ :=
  ⟨start.data, start.kept, fun _ => .outside, []⟩

/-- The mode of the section that a thread is in, if it is in one. -/
def Place.mode : Place σ κ → Option Mode
  | .outside => none
  | .inside mode _ => some mode

/-- The modes of the sections that threads are in. -/
def World.modeOf (world : World τ σ κ) : τ → Option Mode := Place.mode ∘ world.places

/-- A thread has no mode exactly when it is in no section. -/
theorem World.modeOf_eq_none {world : World τ σ κ} {thread : τ} :
    world.modeOf thread = none ↔ world.places thread = .outside := by
  show (world.places thread).mode = none ↔ _
  cases world.places thread <;> simp [Place.mode]

/-- A thread in a section has the mode of the section. -/
theorem World.modeOf_inside {world : World τ σ κ} {thread : τ} {mode : Mode}
    {rest : List (Part σ κ)} (place : world.places thread = .inside mode rest) :
    world.modeOf thread = some mode := by
  show (world.places thread).mode = _
  rw [place]
  rfl

/-- No thread is in a section. -/
def World.Quiet (world : World τ σ κ) : Prop := ∀ thread, world.places thread = .outside

/-- No thread is in an exclusive section. -/
def World.Readable (world : World τ σ κ) : Prop :=
  ∀ thread rest, world.places thread ≠ .inside .exclusive rest

/-- A section of a mode may be entered. -/
def World.Admits (world : World τ σ κ) : Mode → Prop
  | .shared => world.Readable
  | .exclusive => world.Quiet

/-- While a thread is in an exclusive section, no other is in a section. -/
def World.Excluded (world : World τ σ κ) : Prop :=
  ∀ thread rest, world.places thread = .inside .exclusive rest →
    ∀ other, other ≠ thread → world.places other = .outside

/-- When no thread is in a section none is in an exclusive one. -/
theorem World.Quiet.readable {world : World τ σ κ} (quiet : world.Quiet) : world.Readable := by
  intro thread rest inside
  rw [quiet thread] at inside
  cases inside

/-- A section may be entered only while no exclusive one is open. -/
theorem World.Admits.readable {world : World τ σ κ} {mode : Mode} (admits : world.Admits mode) :
    world.Readable := by
  cases mode with
  | shared => exact admits
  | exclusive => exact World.Quiet.readable admits

/-! ## Whole sections -/

variable [DecidableEq τ]

/-- A section of a thread as a whole. -/
def Whole.perform (whole : Whole τ σ κ) (entry : τ × Section σ κ) : Whole τ σ κ where
  data := (finish entry.2.parts whole.data (whole.kept entry.1)).1
  kept := Function.update whole.kept entry.1
    (finish entry.2.parts whole.data (whole.kept entry.1)).2

/-- Whole sections, one after another. -/
def Whole.after (start : Whole τ σ κ) (entries : List (τ × Section σ κ)) : Whole τ σ κ :=
  entries.foldl Whole.perform start

/-- The last section comes after the others. -/
theorem Whole.after_append (start : Whole τ σ κ) (entries : List (τ × Section σ κ))
    (entry : τ × Section σ κ) :
    start.after (entries ++ [entry]) = (start.after entries).perform entry := by
  rw [after, List.foldl_append]
  rfl

/-! ## Sections in parts -/

/-- A thread enters a section. -/
def World.enter (world : World τ σ κ) (thread : τ) (opened : Section σ κ) : World τ σ κ :=
  { world with
    places := Function.update world.places thread (.inside opened.mode opened.parts)
    entered := world.entered ++ [(thread, opened)] }

/-- A thread runs the next part of its section. -/
def World.go (world : World τ σ κ) (thread : τ) : World τ σ κ :=
  match world.places thread with
  | .inside mode (part :: rest) =>
    { world with
      data := (part world.data (world.kept thread)).1
      kept := Function.update world.kept thread (part world.data (world.kept thread)).2
      places := Function.update world.places thread (.inside mode rest) }
  | _ => world

/-- A thread is outside. -/
def World.leave (world : World τ σ κ) (thread : τ) : World τ σ κ :=
  { world with places := Function.update world.places thread .outside }

/-- A thread that enters a section gets its mode. -/
theorem World.modeOf_enter (world : World τ σ κ) (thread : τ) (opened : Section σ κ) :
    (world.enter thread opened).modeOf =
      Function.update world.modeOf thread (some opened.mode) := Function.comp_update _ _ _ _

/-- A thread that goes on keeps its mode. -/
theorem World.modeOf_go (world : World τ σ κ) (thread : τ) :
    (world.go thread).modeOf = world.modeOf := by
  unfold go
  split
  · rename_i mode part rest place
    unfold modeOf
    rw [Function.comp_update]
    apply Function.update_eq_self_iff.mpr
    exact (modeOf_inside place).symm
  · rfl

/-- A thread that leaves has no mode. -/
theorem World.modeOf_leave (world : World τ σ κ) (thread : τ) :
    (world.leave thread).modeOf = Function.update world.modeOf thread none :=
  Function.comp_update _ _ _ _

/-! ## What the threads can tell -/

/-- A world is what whole sections give, once each open section is run to its end. -/
structure Explained (start : Whole τ σ κ) (world : World τ σ κ) : Prop where
  /-- Exclusive sections keep the others out. -/
  excluded : world.Excluded
  /-- What is left of a shared section only reads. -/
  reads : ∀ thread rest, world.places thread = .inside .shared rest → ∀ part ∈ rest, Reads part
  /-- The end of an open section gives the shared data and what its thread keeps. -/
  inside : ∀ thread mode rest, world.places thread = .inside mode rest →
    finish rest world.data (world.kept thread) =
      ((start.after world.entered).data, (start.after world.entered).kept thread)
  /-- A thread in no section keeps what its whole sections gave. -/
  outside : ∀ thread, world.places thread = .outside →
    world.kept thread = (start.after world.entered).kept thread
  /-- While no exclusive section is open the shared data is what whole sections gave. -/
  settled : world.Readable → world.data = (start.after world.entered).data

/-- Before the first section there is nothing to explain. -/
theorem Explained.start (start : Whole τ σ κ) : Explained start start.world where
  excluded := by
    intro thread rest inside
    cases inside
  reads := by
    intro thread rest inside
    cases inside
  inside := by
    intro thread mode rest inside
    cases inside
  outside _ _ := rfl
  settled _ := rfl

variable {start : Whole τ σ κ} {world : World τ σ κ}

/-- A thread enters a section that may be entered. -/
theorem Explained.enter (explained : Explained start world) {thread : τ}
    (free : world.places thread = .outside) {opened : Section σ κ}
    (admits : world.Admits opened.mode) : Explained start (world.enter thread opened) := by
  have data := explained.settled admits.readable
  have kept := explained.outside thread free
  have whole : start.after (world.enter thread opened).entered =
      (start.after world.entered).perform (thread, opened) := start.after_append _ _
  have unread : opened.mode = .shared →
      ((start.after world.entered).perform (thread, opened)).data = world.data := by
    intro shared
    rw [data]
    exact finish_reads (opened.reads shared) _ _
  have others (other : τ) (different : other ≠ thread) :
      ((start.after world.entered).perform (thread, opened)).kept other =
        (start.after world.entered).kept other := Function.update_of_ne different _ _
  have placed (other : τ) (different : other ≠ thread) :
      (world.enter thread opened).places other = world.places other :=
    Function.update_of_ne different _ _
  have here : (world.enter thread opened).places thread = .inside opened.mode opened.parts :=
    Function.update_self _ _ _
  have shared (other : τ) (different : other ≠ thread) {mode : Mode} {rest : List (Part σ κ)}
      (inside : world.places other = .inside mode rest) : opened.mode = .shared := by
    cases opens : opened.mode with
    | shared => rfl
    | exclusive =>
      rw [opens] at admits
      rw [admits other] at inside
      cases inside
  constructor
  · intro holder rest inside other different
    by_cases entering : holder = thread
    · rw [entering] at inside different
      rw [here] at inside
      rw [placed other different]
      have exclusive : opened.mode = .exclusive := (Place.inside.inj inside).1
      rw [exclusive] at admits
      exact admits other
    · rw [placed holder entering] at inside
      exact absurd inside (admits.readable holder rest)
  · intro reader rest inside
    by_cases entering : reader = thread
    · rw [entering, here] at inside
      obtain ⟨isShared, rfl⟩ := Place.inside.inj inside
      exact opened.reads isShared
    · rw [placed reader entering] at inside
      exact explained.reads reader rest inside
  · intro holder mode rest inside
    rw [whole]
    by_cases entering : holder = thread
    · rw [entering, here] at inside
      obtain ⟨-, rfl⟩ := Place.inside.inj inside
      rw [entering]
      show finish opened.parts world.data (world.kept thread) = _
      rw [data, kept]
      simp only [Whole.perform, Function.update_self]
    · rw [placed holder entering] at inside
      rw [others holder entering, unread (shared holder entering inside), data]
      show finish rest world.data (world.kept holder) = _
      exact explained.inside holder mode rest inside
  · intro other isOutside
    rw [whole]
    by_cases entering : other = thread
    · rw [entering, here] at isOutside
      cases isOutside
    · rw [placed other entering] at isOutside
      rw [others other entering]
      exact explained.outside other isOutside
  · intro readable
    rw [whole]
    cases opens : opened.mode with
    | shared => exact (unread opens).symm
    | exclusive =>
      rw [opens] at here
      exact absurd here (readable thread opened.parts)

/-- A thread goes on in its section. -/
theorem Explained.go (explained : Explained start world) (thread : τ) :
    Explained start (world.go thread) := by
  unfold World.go
  split
  · rename_i mode part rest place
    have ends := explained.inside thread mode (part :: rest) place
    rw [finish_cons] at ends
    have same (other : τ) (different : other ≠ thread) (opened : world.places other ≠ .outside) :
        (part world.data (world.kept thread)).1 = world.data := by
      cases mode with
      | shared => exact explained.reads thread (part :: rest) place part (.head _) _ _
      | exclusive => exact absurd (explained.excluded thread _ place other different) opened
    constructor
    · intro holder left inside other different
      dsimp only at inside ⊢
      by_cases going : holder = thread
      · rw [going] at inside different
        rw [Function.update_self] at inside
        rw [Function.update_of_ne different]
        have exclusive : mode = .exclusive := (Place.inside.inj inside).1
        rw [exclusive] at place
        exact explained.excluded thread _ place other different
      · rw [Function.update_of_ne going] at inside
        have isOutside := explained.excluded holder left inside thread (Ne.symm going)
        rw [place] at isOutside
        cases isOutside
    · intro reader left inside
      dsimp only at inside
      by_cases going : reader = thread
      · rw [going, Function.update_self] at inside
        obtain ⟨rfl, rfl⟩ := Place.inside.inj inside
        intro later listed
        exact explained.reads thread (part :: rest) place later (.tail _ listed)
      · rw [Function.update_of_ne going] at inside
        exact explained.reads reader left inside
    · intro holder other left inside
      dsimp only at inside ⊢
      by_cases going : holder = thread
      · rw [going, Function.update_self] at inside
        obtain ⟨-, rfl⟩ := Place.inside.inj inside
        rw [going, Function.update_self]
        exact ends
      · rw [Function.update_of_ne going] at inside
        rw [Function.update_of_ne going, same holder going (by rw [inside]; simp)]
        exact explained.inside holder other left inside
    · intro other isOutside
      dsimp only at isOutside ⊢
      by_cases going : other = thread
      · rw [going, Function.update_self] at isOutside
        cases isOutside
      · rw [Function.update_of_ne going] at isOutside ⊢
        exact explained.outside other isOutside
    · intro readable
      dsimp only at readable ⊢
      cases mode with
      | shared =>
        have before : world.Readable := by
          intro other left inside
          have going : other ≠ thread := by
            rintro rfl
            rw [place] at inside
            cases inside
          exact readable other left (by dsimp only; rwa [Function.update_of_ne going])
        rw [explained.reads thread (part :: rest) place part (.head _)]
        exact explained.settled before
      | exclusive =>
        exact absurd (Function.update_self _ _ _) (readable thread rest)
  · exact explained

/-- A thread leaves its section at the end. -/
theorem Explained.leave (explained : Explained start world) {thread : τ} {mode : Mode}
    (place : world.places thread = .inside mode []) : Explained start (world.leave thread) := by
  have ends := explained.inside thread mode [] place
  rw [finish_nil, Prod.mk.injEq] at ends
  have placed (other : τ) (different : other ≠ thread) :
      (world.leave thread).places other = world.places other :=
    Function.update_of_ne different _ _
  have here : (world.leave thread).places thread = .outside := Function.update_self _ _ _
  constructor
  · intro holder rest inside other different
    by_cases leaving : holder = thread
    · rw [leaving, here] at inside
      cases inside
    · rw [placed holder leaving] at inside
      by_cases gone : other = thread
      · rw [gone]
        exact here
      · rw [placed other gone]
        exact explained.excluded holder rest inside other different
  · intro reader rest inside
    by_cases leaving : reader = thread
    · rw [leaving, here] at inside
      cases inside
    · rw [placed reader leaving] at inside
      exact explained.reads reader rest inside
  · intro holder other rest inside
    by_cases leaving : holder = thread
    · rw [leaving, here] at inside
      cases inside
    · rw [placed holder leaving] at inside
      exact explained.inside holder other rest inside
  · intro other isOutside
    by_cases leaving : other = thread
    · rw [leaving]
      exact ends.2
    · rw [placed other leaving] at isOutside
      exact explained.outside other isOutside
  · intro _
    exact ends.1

/-- When no section is open, the world is what whole sections gave. -/
theorem Explained.quiet (explained : Explained start world) (quiet : world.Quiet) :
    (⟨world.data, world.kept⟩ : Whole τ σ κ) = start.after world.entered := by
  apply Whole.ext
  · exact explained.settled quiet.readable
  · funext thread
    exact explained.outside thread (quiet thread)

/-! ## What is left of a section -/

/-- What is left of an open section is the end of one that its thread entered. -/
def World.Begun (world : World τ σ κ) : Prop :=
  ∀ thread mode rest, world.places thread = .inside mode rest →
    ∃ opened, (thread, opened) ∈ world.entered ∧ opened.mode = mode ∧ rest <:+ opened.parts

omit [DecidableEq τ] in
/-- Before the first section nothing is left of any. -/
theorem World.Begun.initial (first : Whole τ σ κ) : first.world.Begun := by
  intro thread mode rest inside
  cases inside

/-- A thread enters a section, of which everything is left. -/
theorem World.Begun.enter (begun : world.Begun) (thread : τ) (opened : Section σ κ) :
    (world.enter thread opened).Begun := by
  intro holder mode rest inside
  unfold World.enter at inside ⊢
  dsimp only at inside ⊢
  by_cases entering : holder = thread
  · rw [entering, Function.update_self] at inside
    obtain ⟨rfl, rfl⟩ := Place.inside.inj inside
    rw [entering]
    exact ⟨opened, by simp, rfl, List.suffix_refl _⟩
  · rw [Function.update_of_ne entering] at inside
    obtain ⟨begins, listed, same, left⟩ := begun holder mode rest inside
    exact ⟨begins, List.mem_append_left _ listed, same, left⟩

/-- A thread goes on, and one part less is left of its section. -/
theorem World.Begun.go (begun : world.Begun) (thread : τ) : (world.go thread).Begun := by
  unfold World.go
  split
  · rename_i mode part rest place
    intro holder other left inside
    dsimp only at inside ⊢
    by_cases going : holder = thread
    · rw [going, Function.update_self] at inside
      obtain ⟨rfl, rfl⟩ := Place.inside.inj inside
      obtain ⟨begins, listed, same, whole⟩ := begun thread mode (part :: rest) place
      rw [going]
      exact ⟨begins, listed, same, (List.suffix_cons part rest).trans whole⟩
    · rw [Function.update_of_ne going] at inside
      exact begun holder other left inside
  · exact begun

/-- A thread that leaves has nothing left. -/
theorem World.Begun.leave (begun : world.Begun) (thread : τ) : (world.leave thread).Begun := by
  intro holder mode rest inside
  unfold World.leave at inside ⊢
  dsimp only at inside ⊢
  by_cases leaving : holder = thread
  · rw [leaving, Function.update_self] at inside
    cases inside
  · rw [Function.update_of_ne leaving] at inside
    exact begun holder mode rest inside

end HwrunOs.Sections
