import Mathlib.Data.List.Basic

/-!
# Stream transducers

A decoder is called with a window of its input and room for some output; it takes part of the
window, fills part of the room and reports whether the stream has ended, is broken, or needs more
of one of them. What a stream means is its verdict, which does not depend on how the stream is
cut into windows; the laws say how one call relates the verdict before to the verdict after. An
encoder is the same for the way back, where the caller says which window is the last.
-/

namespace HwrunOs.Transducers

/-- What a call reports. -/
inductive Report where
  /-- The stream goes on. -/
  | more
  /-- The stream has ended. -/
  | ended
  /-- The stream is broken. -/
  | failed
deriving DecidableEq

/-- What a call returns. -/
structure Answer (State β : Type) where
  /-- The state after it. -/
  state : State
  /-- How much of the window is taken. -/
  consumed : Nat
  /-- The output. -/
  produced : List β
  /-- The report. -/
  report : Report

/-- What a stream means. -/
inductive Verdict (β : Type) where
  /-- It ends after a number of elements, with this output. -/
  | ended (length : Nat) (output : List β)
  /-- It is cut off before its end. This is the output of what is there. -/
  | cut (output : List β)
  /-- It is broken, after at most so much output. -/
  | failed (most : Nat)

namespace Verdict

variable {β : Type}

/-- The output at most. -/
def most : Verdict β → Nat
  | .ended _ output | .cut output => output.length
  | .failed most => most

/-- The stream is cut off before its end. -/
def isCut : Verdict β → Bool
  | .cut _ => true
  | _ => false

/-- A verdict follows from what was taken and returned already and the verdict on the rest. -/
def Follows (whole : Verdict β) (consumed : Nat) (produced : List β) : Verdict β → Prop
  | .ended length output => whole = .ended (consumed + length) (produced ++ output)
  | .cut output => whole = .cut (produced ++ output)
  | .failed most => ∃ all, whole = .failed all ∧ produced.length + most ≤ all

/-- A call makes the output at most that remains smaller. -/
theorem Follows.most {whole rest : Verdict β} {consumed : Nat} {produced : List β}
    (follows : whole.Follows consumed produced rest) :
    produced.length + rest.most ≤ whole.most := by
  cases rest with
  | ended length output =>
    have same : whole = .ended (consumed + length) (produced ++ output) := follows
    rw [same]
    exact Nat.le_of_eq List.length_append.symm
  | cut output =>
    have same : whole = .cut (produced ++ output) := follows
    rw [same]
    exact Nat.le_of_eq List.length_append.symm
  | failed bound =>
    obtain ⟨all, same, bounded⟩ := follows
    rw [same]
    exact bounded

/-- A stream is cut off exactly when its rest is. -/
theorem Follows.isCut {whole rest : Verdict β} {consumed : Nat} {produced : List β}
    (follows : whole.Follows consumed produced rest) : rest.isCut = whole.isCut := by
  cases rest with
  | ended length output => rw [show whole = _ from follows]; rfl
  | cut output => rw [show whole = _ from follows]; rfl
  | failed bound =>
    obtain ⟨all, same, -⟩ := follows
    rw [same]
    rfl

/-- The rest of a stream that ends. -/
theorem Follows.ended {rest : Verdict β} {consumed length : Nat} {produced output : List β}
    (follows : (Verdict.ended length output).Follows consumed produced rest) :
    ∃ left tail, rest = .ended left tail ∧ length = consumed + left ∧
      output = produced ++ tail := by
  cases rest with
  | ended left tail =>
    obtain ⟨lengths, outputs⟩ := Verdict.ended.inj follows
    exact ⟨left, tail, rfl, lengths, outputs⟩
  | cut tail => cases follows
  | failed bound =>
    obtain ⟨all, same, -⟩ := follows
    cases same

/-- Two calls in a row. -/
theorem Follows.trans {whole middle rest : Verdict β} {first second : Nat}
    {early late : List β} (before : whole.Follows first early middle)
    (after : middle.Follows second late rest) :
    whole.Follows (first + second) (early ++ late) rest := by
  cases rest with
  | ended length output =>
    rw [show middle = _ from after] at before
    show whole = _
    rw [show whole = _ from before, Nat.add_assoc, List.append_assoc]
  | cut output =>
    rw [show middle = _ from after] at before
    show whole = _
    rw [show whole = _ from before, List.append_assoc]
  | failed bound =>
    obtain ⟨all, same, bounded⟩ := after
    rw [same] at before
    obtain ⟨total, equal, most⟩ := before
    exact ⟨total, equal, by rw [List.length_append]; omega⟩

/-- Nothing taken and nothing returned. -/
theorem Follows.refl (whole : Verdict β) : whole.Follows 0 [] whole := by
  cases whole with
  | ended length output => show _ = _; rw [Nat.zero_add]; rfl
  | cut output => rfl
  | failed most => exact ⟨most, rfl, by rw [List.length_nil]; omega⟩

end Verdict

/-- A streaming decoder, with the verdict on what a state has still to read. -/
structure Decoder (α β : Type) where
  /-- The states. -/
  State : Type
  /-- The state before the first call. -/
  start : State
  /-- One call, with a window of the input and room for the output. -/
  decode : State → List α → Nat → Answer State β
  /-- What the rest of a stream means. -/
  verdict : State → List α → Verdict β

/-- The laws of a decoder. -/
structure Decoder.Lawful {α β : Type} (decoder : Decoder α β) : Prop where
  /-- A call takes from its window and stays within its room. -/
  bounded : ∀ state window room, (decoder.decode state window room).consumed ≤ window.length ∧
    (decoder.decode state window room).produced.length ≤ room
  /-- A stream that is reported broken is broken, whatever comes later. -/
  failed : ∀ state window room, (decoder.decode state window room).report = .failed →
    ∀ later, ∃ most, decoder.verdict state (window ++ later) = .failed most
  /-- The end is reported at the end of the stream, with all its output. -/
  ended : ∀ state window room, (decoder.decode state window room).report = .ended →
    ∀ later, decoder.verdict state (window ++ later) =
      .ended (decoder.decode state window room).consumed (decoder.decode state window room).produced
  /-- A call that reports neither leaves the rest of the stream. -/
  more : ∀ state window room, (decoder.decode state window room).report = .more → ∀ later,
    (decoder.verdict state (window ++ later)).Follows
      (decoder.decode state window room).consumed (decoder.decode state window room).produced
      (decoder.verdict (decoder.decode state window room).state
        (window.drop (decoder.decode state window room).consumed ++ later))
  /-- The last element of a stream is not taken before all output is returned and the end
  reported. -/
  last : ∀ state window room, (decoder.decode state window room).report = .more →
    ∀ later length output, decoder.verdict state (window ++ later) = .ended length output →
      (decoder.decode state window room).consumed < length
  /-- A call that leaves room has taken the whole window, and no output is left in the decoder. -/
  drained : ∀ state window room, (decoder.decode state window room).report = .more →
    (decoder.decode state window room).produced.length < room →
      (decoder.decode state window room).consumed = window.length ∧
        decoder.verdict (decoder.decode state window room).state [] = .cut []
  /-- A stream ends within what is there of it. -/
  inside : ∀ state stream length output,
    decoder.verdict state stream = .ended length output → length ≤ stream.length
  /-- No stream is empty. -/
  filled : ∀ stream output, decoder.verdict decoder.start stream ≠ .ended 0 output

/-- A streaming encoder, with the output that is still to come for an input still to come. -/
structure Encoder (α β : Type) where
  /-- The states. -/
  State : Type
  /-- The state before the first call. -/
  start : State
  /-- One call, with a window of the input, room for the output, and whether it is the last. -/
  encode : State → List α → Nat → Bool → Answer State β
  /-- The output that is still to come. -/
  rest : State → List α → List β

/-- The whole output for an input. -/
def Encoder.output {α β : Type} (encoder : Encoder α β) (input : List α) : List β :=
  encoder.rest encoder.start input

/-- The laws of an encoder. -/
structure Encoder.Lawful {α β : Type} (encoder : Encoder α β) : Prop where
  /-- A call takes from its window and stays within its room. -/
  bounded : ∀ state window room final,
    (encoder.encode state window room final).consumed ≤ window.length ∧
      (encoder.encode state window room final).produced.length ≤ room
  /-- A call with room and input that is not the last goes on. -/
  feeds : ∀ state window room, 0 < room → window ≠ [] →
    (encoder.encode state window room false).report = .more
  /-- Such a call takes or returns something. -/
  progress : ∀ state window room, 0 < room → window ≠ [] →
    0 < (encoder.encode state window room false).consumed ∨
      (encoder.encode state window room false).produced ≠ []
  /-- It leaves the rest of the output. -/
  more : ∀ state window room, 0 < room → window ≠ [] → ∀ later,
    encoder.rest state (window ++ later) = (encoder.encode state window room false).produced ++
      encoder.rest (encoder.encode state window room false).state
        (window.drop (encoder.encode state window room false).consumed ++ later)
  /-- The last input is never refused. -/
  finishes : ∀ state window room, 0 < room →
    (encoder.encode state window room true).report ≠ .failed
  /-- The end is reported when the whole window is taken and the output is complete. -/
  ended : ∀ state window room, 0 < room → (encoder.encode state window room true).report = .ended →
    (encoder.encode state window room true).consumed = window.length ∧
      encoder.rest state window = (encoder.encode state window room true).produced
  /-- Otherwise something is taken or returned, and the rest of the output is left. -/
  unfinished : ∀ state window room, 0 < room →
    (encoder.encode state window room true).report = .more →
      (0 < (encoder.encode state window room true).consumed ∨
        (encoder.encode state window room true).produced ≠ []) ∧
      encoder.rest state window = (encoder.encode state window room true).produced ++
        encoder.rest (encoder.encode state window room true).state
          (window.drop (encoder.encode state window room true).consumed)

end HwrunOs.Transducers
