import HwrunOs.Library.Transducers

/-!
# Transducers from machines

A machine that reads one element at a time and returns at most one for it is a lawful decoder,
and any function on whole inputs is the output of a lawful encoder, which keeps its input until
the last call.
-/

namespace HwrunOs.Transducers

variable {α β : Type}

/-! ## Decoders -/

/-- What a machine does with one element. -/
inductive Move (σ β : Type) where
  /-- It goes on, with an output or none. -/
  | go (state : σ) (output : Option β)
  /-- The element is the last of the stream. -/
  | stop
  /-- The stream is broken. -/
  | fail

/-- A verdict after one element more, with an output or none. -/
def Verdict.before (verdict : Verdict β) (output : Option β) : Verdict β :=
  match verdict with
  | .ended length rest => .ended (length + 1) (output.toList ++ rest)
  | .cut rest => .cut (output.toList ++ rest)
  | .failed most => .failed (output.toList.length + most)

/-- The verdict of a machine. -/
def machineVerdict {σ : Type} (step : σ → α → Move σ β) : σ → List α → Verdict β
  | _, [] => .cut []
  | state, first :: rest =>
    match step state first with
    | .go later output => (machineVerdict step later rest).before output
    | .stop => .ended 1 []
    | .fail => .failed 0

/-- An answer after one element more, with an output or none. -/
def Answer.before {σ : Type} (answer : Answer σ β) (output : Option β) : Answer σ β :=
  ⟨answer.state, answer.consumed + 1, output.toList ++ answer.produced, answer.report⟩

/-- A call of a machine: it stops in front of an element whose output has no room. -/
def machineDecode {σ : Type} (step : σ → α → Move σ β) : σ → List α → Nat → Answer σ β
  | state, [], _ => ⟨state, 0, [], .more⟩
  | state, first :: rest, room =>
    match step state first with
    | .go later output =>
      if output.toList.length ≤ room then
        (machineDecode step later rest (room - output.toList.length)).before output
      else ⟨state, 0, [], .more⟩
    | .stop => ⟨state, 1, [], .ended⟩
    | .fail => ⟨state, 0, [], .failed⟩

/-- The decoder of a machine. -/
def machineDecoder {σ : Type} (start : σ) (step : σ → α → Move σ β) : Decoder α β where
  State := σ
  start := start
  decode := machineDecode step
  verdict := machineVerdict step

/-- A verdict that follows, one element earlier. -/
theorem follows_before {whole rest : Verdict β} {consumed : Nat} {produced : List β}
    (follows : whole.Follows consumed produced rest) (output : Option β) :
    (whole.before output).Follows (consumed + 1) (output.toList ++ produced) rest := by
  cases rest with
  | ended length tail =>
    rw [show whole = _ from follows]
    show _ = _
    rw [List.append_assoc, Nat.add_right_comm]
    rfl
  | cut tail =>
    rw [show whole = _ from follows]
    show _ = _
    rw [List.append_assoc]
    rfl
  | failed most =>
    obtain ⟨all, same, bound⟩ := follows
    rw [same]
    refine ⟨_, rfl, ?_⟩
    rw [List.length_append]
    omega

variable {σ : Type} {step : σ → α → Move σ β}

/-- A call stays within its window and its room. -/
theorem machineDecode_bounded (state : σ) (window : List α) (room : Nat) :
    (machineDecode step state window room).consumed ≤ window.length ∧
      (machineDecode step state window room).produced.length ≤ room := by
  induction window generalizing state room with
  | nil => exact ⟨Nat.zero_le _, Nat.zero_le _⟩
  | cons first rest ih =>
    simp only [machineDecode, List.length_cons]
    cases step state first with
    | go later output =>
      dsimp only
      split
      next fits =>
        obtain ⟨taken, filled⟩ := ih later (room - output.toList.length)
        refine ⟨Nat.succ_le_succ taken, ?_⟩
        show (output.toList ++ _).length ≤ room
        rw [List.length_append]
        omega
      next => exact ⟨Nat.zero_le _, Nat.zero_le _⟩
    | stop => exact ⟨Nat.succ_le_succ (Nat.zero_le _), Nat.zero_le _⟩
    | fail => exact ⟨Nat.zero_le _, Nat.zero_le _⟩

/-- A broken stream is reported as such. -/
theorem machineDecode_failed {state : σ} {window : List α} {room : Nat}
    (report : (machineDecode step state window room).report = .failed) (later : List α) :
    ∃ most, machineVerdict step state (window ++ later) = .failed most := by
  induction window generalizing state room with
  | nil => cases report
  | cons first rest ih =>
    simp only [machineDecode, machineVerdict, List.cons_append] at report ⊢
    cases move : step state first with
    | go next output =>
      simp only [move] at report
      split at report
      next =>
        obtain ⟨most, broken⟩ := ih report
        exact ⟨_, by simp only [broken]; rfl⟩
      next => cases report
    | stop =>
      simp only [move] at report
      cases report
    | fail => exact ⟨0, rfl⟩

/-- The end is reported with all the output. -/
theorem machineDecode_ended {state : σ} {window : List α} {room : Nat}
    (report : (machineDecode step state window room).report = .ended) (later : List α) :
    machineVerdict step state (window ++ later) =
      .ended (machineDecode step state window room).consumed
        (machineDecode step state window room).produced := by
  induction window generalizing state room with
  | nil => cases report
  | cons first rest ih =>
    simp only [machineDecode, machineVerdict, List.cons_append] at report ⊢
    cases move : step state first with
    | go next output =>
      simp only [move] at report ⊢
      split at report
      next fits =>
        rw [ih report, if_pos fits]
        rfl
      next => cases report
    | stop => rfl
    | fail =>
      simp only [move] at report
      cases report

/-- Otherwise the verdict on the rest follows. -/
theorem machineDecode_more {state : σ} {window : List α} {room : Nat}
    (report : (machineDecode step state window room).report = .more) (later : List α) :
    (machineVerdict step state (window ++ later)).Follows
      (machineDecode step state window room).consumed
      (machineDecode step state window room).produced
      (machineVerdict step (machineDecode step state window room).state
        (window.drop (machineDecode step state window room).consumed ++ later)) := by
  induction window generalizing state room with
  | nil => exact Verdict.Follows.refl _
  | cons first rest ih =>
    cases move : step state first with
    | go next output =>
      by_cases fits : output.toList.length ≤ room
      · have call : machineDecode step state (first :: rest) room =
            (machineDecode step next rest (room - output.toList.length)).before output := by
          simp only [machineDecode, move, if_pos fits]
        rw [call] at report ⊢
        have follows := follows_before (ih report) output
        simp only [List.cons_append, machineVerdict, move]
        exact follows
      · have call : machineDecode step state (first :: rest) room = ⟨state, 0, [], .more⟩ := by
          simp only [machineDecode, move, if_neg fits]
        rw [call]
        exact Verdict.Follows.refl _
    | stop =>
      simp only [machineDecode, move] at report
      cases report
    | fail =>
      simp only [machineDecode, move] at report
      cases report

/-- A call that leaves room has taken the whole window. -/
theorem machineDecode_drained {state : σ} {window : List α} {room : Nat}
    (report : (machineDecode step state window room).report = .more)
    (room_ : (machineDecode step state window room).produced.length < room) :
    (machineDecode step state window room).consumed = window.length := by
  induction window generalizing state room with
  | nil => rfl
  | cons first rest ih =>
    cases move : step state first with
    | go next output =>
      by_cases fits : output.toList.length ≤ room
      · have call : machineDecode step state (first :: rest) room =
            (machineDecode step next rest (room - output.toList.length)).before output := by
          simp only [machineDecode, move, if_pos fits]
        rw [call] at report room_ ⊢
        have left : (machineDecode step next rest (room - output.toList.length)).produced.length <
            room - output.toList.length := by
          have length : (output.toList ++ (machineDecode step next rest
              (room - output.toList.length)).produced).length < room := room_
          rw [List.length_append] at length
          omega
        exact congrArg (· + 1) (ih report left)
      · -- One element has at most one output, for which there is room.
        have one : output.toList.length ≤ 1 := by cases output <;> simp
        omega
    | stop =>
      simp only [machineDecode, move] at report
      cases report
    | fail =>
      simp only [machineDecode, move] at report
      cases report

/-- A stream that ends has a last element, within it. -/
theorem machineVerdict_ended {state : σ} {stream : List α} {length : Nat} {output : List β}
    (ended : machineVerdict step state stream = .ended length output) :
    0 < length ∧ length ≤ stream.length := by
  induction stream generalizing state length output with
  | nil => cases ended
  | cons first rest ih =>
    simp only [machineVerdict] at ended
    cases move : step state first with
    | go next emitted =>
      simp only [move] at ended
      cases verdict : machineVerdict step next rest with
      | ended less tail =>
        rw [verdict] at ended
        obtain ⟨lengths, -⟩ := Verdict.ended.inj ended
        obtain ⟨-, inside⟩ := ih verdict
        rw [List.length_cons]
        omega
      | cut tail =>
        rw [verdict] at ended
        cases ended
      | failed most =>
        rw [verdict] at ended
        cases ended
    | stop =>
      simp only [move] at ended
      obtain ⟨rfl, -⟩ := Verdict.ended.inj ended
      exact ⟨Nat.one_pos, Nat.succ_le_succ (Nat.zero_le _)⟩
    | fail =>
      simp only [move] at ended
      cases ended

/-- The last element is not taken before the end is reported. -/
theorem machineDecode_last {state : σ} {window later : List α} {room length : Nat}
    {output : List β} (report : (machineDecode step state window room).report = .more)
    (ended : machineVerdict step state (window ++ later) = .ended length output) :
    (machineDecode step state window room).consumed < length := by
  have follows := machineDecode_more report later
  rw [ended] at follows
  obtain ⟨left, tail, rest, lengths, -⟩ := follows.ended
  have positive := (machineVerdict_ended rest).1
  omega

/-- The decoder of a machine is lawful. -/
theorem machineDecoder_lawful (start : σ) (step : σ → α → Move σ β) :
    (machineDecoder start step).Lawful where
  bounded := machineDecode_bounded
  failed _ _ _ report later := machineDecode_failed report later
  ended _ _ _ report later := machineDecode_ended report later
  more _ _ _ report later := machineDecode_more report later
  last _ _ _ report _ _ _ ended := machineDecode_last report ended
  drained _ _ _ report room := ⟨machineDecode_drained report room, rfl⟩
  inside _ _ _ _ ended := (machineVerdict_ended ended).2
  filled _ _ ended := Nat.lt_irrefl 0 (machineVerdict_ended ended).1

/-! ## Encoders -/

/-- The state of an encoder that keeps its input until the last call. -/
structure Kept (α β : Type) where
  /-- The input that is kept. -/
  input : List α
  /-- The output that is left, from the last call on. -/
  output : Option (List β)

/-- The output that is still to come. -/
def Kept.rest (code : List α → List β) (kept : Kept α β) (later : List α) : List β :=
  kept.output.getD (code (kept.input ++ later))

/-- The encoder of a function. -/
def wholeEncoder (code : List α → List β) : Encoder α β where
  State := Kept α β
  start := ⟨[], none⟩
  encode kept window room final :=
    if final then
      let output := kept.rest code window
      ⟨⟨kept.input ++ window, some (output.drop room)⟩, window.length, output.take room,
        if output.length ≤ room then .ended else .more⟩
    else ⟨⟨kept.input ++ window, kept.output⟩, window.length, [], .more⟩
  rest := Kept.rest code

/-- The encoder of a function is lawful. -/
theorem wholeEncoder_lawful (code : List α → List β) : (wholeEncoder code).Lawful where
  bounded kept window room final := by
    cases final with
    | false => exact ⟨Nat.le_refl _, Nat.zero_le _⟩
    | true => exact ⟨Nat.le_refl _, List.length_take_le _ _⟩
  feeds _ _ _ _ _ := rfl
  progress _ _ _ _ filled := .inl (List.length_pos_iff.mpr filled)
  more kept window _ _ _ later := by
    show kept.rest code (window ++ later) = [] ++ Kept.rest code ⟨kept.input ++ window, kept.output⟩
      (window.drop window.length ++ later)
    rw [List.drop_length, List.nil_append, List.nil_append]
    show kept.output.getD (code (kept.input ++ (window ++ later))) =
      kept.output.getD (code (kept.input ++ window ++ later))
    rw [List.append_assoc]
  finishes kept window room _ := by
    show (if _ then Report.ended else Report.more) ≠ .failed
    split
    · exact Report.noConfusion
    · exact Report.noConfusion
  ended kept window room _ report := by
    have whole : (if (kept.rest code window).length ≤ room then Report.ended else .more) = .ended :=
      report
    split at whole
    next fits => exact ⟨rfl, (List.take_of_length_le fits).symm⟩
    next => cases whole
  unfinished kept window room positive report := by
    have whole : (if (kept.rest code window).length ≤ room then Report.ended else .more) = .more :=
      report
    split at whole
    next => cases whole
    next large =>
      refine ⟨.inr ?_, (List.take_append_drop room _).symm⟩
      show (kept.rest code window).take room ≠ []
      intro empty
      have length := congrArg List.length empty
      rw [List.length_take, List.length_nil] at length
      omega

end HwrunOs.Transducers
