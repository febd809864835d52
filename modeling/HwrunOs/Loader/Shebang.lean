import HwrunOs.Loader.Run

/-!
# The interpreter of a script

`loader_detect_impl` takes the interpreter from the first 64 bytes of a file. It stops at a blank,
at the end of the line, at a zero byte and at the end of what was read, and does not tell them
apart, so a path that goes on behind these bytes is reported, and started, without its end.
-/

namespace HwrunOs.Loader

open HwrunOs.Bytes

/-! ## Paths -/

/-- A blank or the end of a line. -/
def isPathEnd (byte : UInt8) : Bool := byte == newline || byte == 32 || byte == 9

/-- The path of the interpreter: the text behind the first two bytes, up to the first blank or the
end of the line. -/
def interpreterPath (bytes : List UInt8) : CString :=
  (bytes.drop 2).takeWhile fun byte => !isPathEnd byte

/-- How many bytes of the path are in front of a zero byte and among the first 64 bytes that the
read delivers. -/
def seenLength (path : CString) (delivered : Nat) : Nat :=
  min (path.takeWhile fun byte => byte != 0).length (min 64 delivered - 2)

/-- No more than the path is seen. -/
theorem seenLength_le (path : CString) (delivered : Nat) :
    seenLength path delivered ≤ path.length := by
  have front := (List.takeWhile_prefix (fun byte : UInt8 => byte != 0) (l := path)).length_le
  unfold seenLength
  omega

/-- The text that is scanned is the part of the path that is seen. -/
theorem scanned_eq {bytes delivered : List UInt8} (front : delivered <+: bytes) :
    (((delivered.take 64).drop 2).takeWhile fun byte =>
      !(byte == 0 || byte == newline || byte == 32 || byte == 9)) =
        (interpreterPath bytes).take (seenLength (interpreterPath bytes) delivered.length) := by
  have head : (delivered.take 64).drop 2 = (bytes.drop 2).take (min 64 delivered.length - 2) := by
    conv_lhs => rw [List.prefix_iff_eq_take.mp front]
    rw [List.take_take, List.drop_take]
  have both : (fun byte : UInt8 => !(byte == 0 || byte == newline || byte == 32 || byte == 9)) =
      fun byte => decide ((byte != 0) = true ∧ (!isPathEnd byte) = true) := by
    funext byte
    rw [Bool.eq_iff_iff, decide_eq_true_eq]
    simp only [isPathEnd, Bool.not_eq_true', Bool.or_eq_false_iff, bne, and_assoc]
  have plain : (interpreterPath bytes).takeWhile (fun byte => byte != 0) =
      (interpreterPath bytes).take
        ((interpreterPath bytes).takeWhile fun byte => byte != 0).length :=
    List.prefix_iff_eq_take.mp (List.takeWhile_prefix _)
  rw [head, ← List.take_takeWhile, both, ← List.takeWhile_takeWhile]
  show ((interpreterPath bytes).takeWhile fun byte => byte != 0).take _ = _
  rw [plain, List.take_take, Nat.min_comm]
  rfl

/-! ## What is reported -/

/-- The text that is stored for a script: what is seen of the path, or nothing when it does not
fit. -/
theorem scriptInterpreter_eq {bytes delivered : List UInt8} (front : delivered <+: bytes)
    (size : Nat) : scriptInterpreter (delivered.take 64) size =
      if seenLength (interpreterPath bytes) delivered.length + 1 < size then
        (interpreterPath bytes).take (seenLength (interpreterPath bytes) delivered.length)
      else [] := by
  have length : ((interpreterPath bytes).take
      (seenLength (interpreterPath bytes) delivered.length)).length =
        seenLength (interpreterPath bytes) delivered.length := by
    rw [List.length_take]
    exact Nat.min_eq_left (seenLength_le _ _)
  unfold scriptInterpreter
  rw [scanned_eq front]
  dsimp only
  rw [length]
  by_cases none : (interpreterPath bytes).take
      (seenLength (interpreterPath bytes) delivered.length) = []
  · rw [none, if_neg fun both => both.1 rfl, ite_self]
  · apply if_congr _ rfl rfl
    constructor
    · rintro ⟨-, fits⟩
      omega
    · intro fits
      exact ⟨none, by omega⟩

/-- A front part of a path is empty or the whole exactly when it has no bytes or all. -/
theorem take_right_iff {path : CString} {seen : Nat} (bound : seen ≤ path.length) :
    path.take seen = [] ∨ path.take seen = path ↔ seen = path.length ∨ seen = 0 := by
  constructor
  · rintro (none | whole)
    · rw [List.take_eq_nil_iff] at none
      rcases none with zero | empty
      · exact .inr zero
      · rw [empty, List.length_nil] at bound
        exact .inr (Nat.le_zero.mp bound)
    · have lengths := congrArg List.length whole
      rw [List.length_take, Nat.min_eq_left bound] at lengths
      exact .inl lengths
  · rintro (rfl | rfl)
    · exact .inr List.take_length
    · exact .inl List.take_zero

/-- What is stored for a script is stored whole. -/
theorem stored_scriptInterpreter (hdr : List UInt8) (size : Nat) :
    stored (size + 1) (scriptInterpreter hdr (size + 1)) =
      some (scriptInterpreter hdr (size + 1)) := by
  have short : (scriptInterpreter hdr (size + 1)).length < size + 1 := by
    unfold scriptInterpreter
    dsimp only
    split
    · omega
    · exact Nat.succ_pos size
  unfold stored
  rw [if_neg (Nat.succ_ne_zero size), snprintf_eq short]

/-- Of a file that is no script no interpreter is reported. -/
theorem detect_plain_interpreter {delivered : List UInt8}
    (plain : shebang.isPrefixOf delivered = false) (nameSize interpSize : Nat) {reported : CString}
    (found : (loaderDetectImpl (.ok delivered) nameSize interpSize).interpreter = some reported) :
    reported = [] := by
  have empty {size : Nat} (same : stored size [] = some reported) : reported = [] := by
    unfold stored at same
    split at same
    · cases same
    · rw [← Option.some.inj same]
      exact List.take_nil
  unfold loaderDetectImpl at found
  dsimp only at found
  rw [isPrefixOf_head (by decide), plain] at found
  split at found
  · cases found
  · rw [if_neg Bool.false_ne_true] at found
    split at found
    · exact empty found
    · split at found
      · exact empty found
      · cases found

/-- What `loader_detect_impl` reports is nothing or the whole path. -/
def ReportsWhole (bytes delivered : List UInt8) (nameSize interpSize : Nat) : Prop :=
  ∀ reported, (loaderDetectImpl (.ok delivered) nameSize interpSize).interpreter = some reported →
    reported = [] ∨ reported = interpreterPath bytes

/-- What `run_script` starts is the whole path. -/
def StartsWhole (bytes delivered : List UInt8) : Prop :=
  ∀ host : Host, host.file = .ok delivered → ∀ path argv program args,
    runScript host path argv = .replaced program args → program = interpreterPath bytes

section

variable {bytes delivered : List UInt8}

/-- When the first two bytes are not delivered nothing of the path is seen. -/
theorem seenLength_plain (script : shebang <+: bytes) (front : delivered <+: bytes)
    (plain : shebang.isPrefixOf delivered = false) (path : CString) :
    seenLength path delivered.length = 0 := by
  have short : delivered.length < 2 := by
    by_contra long
    have begins : shebang <+: delivered :=
      List.prefix_of_prefix_length_le script front (Nat.le_of_not_lt long)
    rw [List.isPrefixOf_iff_prefix.mpr begins] at plain
    cases plain
  unfold seenLength
  omega

/-- The report is nothing or the whole path exactly when the whole path is seen, nothing of it, or
more than fits. -/
theorem reportsWhole_iff (script : shebang <+: bytes) (front : delivered <+: bytes)
    (nameSize interpSize : Nat) : ReportsWhole bytes delivered nameSize interpSize ↔
      seenLength (interpreterPath bytes) delivered.length = (interpreterPath bytes).length ∨
        seenLength (interpreterPath bytes) delivered.length = 0 ∨
        interpSize ≤ seenLength (interpreterPath bytes) delivered.length + 1 := by
  cases begins : shebang.isPrefixOf delivered with
  | false =>
    refine iff_of_true ?_ (.inr (.inl (seenLength_plain script front begins _)))
    intro reported found
    exact .inl (detect_plain_interpreter begins nameSize interpSize found)
  | true =>
    have shown : (loaderDetectImpl (.ok delivered) nameSize interpSize).interpreter =
        stored interpSize (scriptInterpreter (delivered.take 64) interpSize) := by
      rw [detect_script begins]
    unfold ReportsWhole
    rw [shown]
    cases interpSize with
    | zero => exact iff_of_true (fun _ found => by cases found) (.inr (.inr (Nat.zero_le _)))
    | succ size =>
      rw [stored_scriptInterpreter, scriptInterpreter_eq front]
      by_cases fits : seenLength (interpreterPath bytes) delivered.length + 1 < size + 1
      · rw [if_pos fits]
        constructor
        · intro whole
          rcases (take_right_iff (seenLength_le _ _)).mp (whole _ rfl) with all | none
          · exact .inl all
          · exact .inr (.inl none)
        · rintro right reported ⟨⟩
          refine (take_right_iff (seenLength_le _ _)).mpr ?_
          rcases right with all | none | small
          · exact .inl all
          · exact .inr none
          · omega
      · rw [if_neg fits]
        refine iff_of_true ?_ (.inr (.inr (Nat.le_of_not_lt fits)))
        rintro reported ⟨⟩
        exact .inl rfl

/-- What is seen of the path fits the buffer of `run_script`. -/
theorem detect_run (front : delivered <+: bytes)
    (begins : shebang.isPrefixOf delivered = true) :
    (loaderDetectImpl (.ok delivered) 0 256).interpreter.getD [] =
      (interpreterPath bytes).take (seenLength (interpreterPath bytes) delivered.length) := by
  have small : seenLength (interpreterPath bytes) delivered.length + 1 < 256 := by
    unfold seenLength
    omega
  rw [detect_script begins]
  show (stored 256 (scriptInterpreter (delivered.take 64) 256)).getD [] = _
  rw [stored_scriptInterpreter, scriptInterpreter_eq front, if_pos small]
  rfl

/-- A script is started with what is seen of the path. -/
theorem runScript_replaced {host : Host} (front : delivered <+: bytes)
    (file : host.file = .ok delivered) {path : CString} {argv : Option (List CString)}
    {program : CString} {args : List CString}
    (started : runScript host path argv = .replaced program args) :
    program ≠ [] ∧ program =
      (interpreterPath bytes).take (seenLength (interpreterPath bytes) delivered.length) := by
  unfold runScript at started
  dsimp only at started
  rw [file] at started
  split at started
  · cases started
  · split at started
    · cases started
    · rename_i known
      obtain ⟨format, filled⟩ := not_or.mp known
      have begins : shebang.isPrefixOf delivered = true := by
        by_contra plain
        exact detect_not_script (Bool.eq_false_iff.mpr plain) 0 256 (not_not.mp format)
      split at started
      · cases started
      · split at started
        · cases started
        · obtain ⟨rfl, -⟩ := Ending.replaced.inj started
          exact ⟨filled, detect_run front begins⟩

/-- On a system where everything succeeds a script of which some of the path is seen is started. -/
theorem runScript_starts (front : delivered <+: bytes)
    (begins : shebang.isPrefixOf delivered = true)
    (filled : (interpreterPath bytes).take
      (seenLength (interpreterPath bytes) delivered.length) ≠ []) :
    ∃ args, runScript { shellScriptHost with file := .ok delivered } [] none = .replaced
      ((interpreterPath bytes).take (seenLength (interpreterPath bytes) delivered.length))
        args := by
  have interp := detect_run front begins
  have detected := detect_script begins 0 256
  unfold runScript
  dsimp only
  rw [interp, detected, if_neg (Int.lt_irrefl 0), if_neg]
  · exact ⟨_, rfl⟩
  · rintro (other | none)
    · exact other rfl
    · exact filled none

/-- What is started is the whole path exactly when the whole path is seen or nothing of it. -/
theorem startsWhole_iff (script : shebang <+: bytes) (front : delivered <+: bytes) :
    StartsWhole bytes delivered ↔
      seenLength (interpreterPath bytes) delivered.length = (interpreterPath bytes).length ∨
        seenLength (interpreterPath bytes) delivered.length = 0 := by
  have parts := take_right_iff (seenLength_le (interpreterPath bytes) delivered.length)
  constructor
  · intro whole
    cases begins : shebang.isPrefixOf delivered with
    | false => exact .inr (seenLength_plain script front begins _)
    | true =>
      by_cases none : (interpreterPath bytes).take
          (seenLength (interpreterPath bytes) delivered.length) = []
      · exact parts.mp (.inl none)
      · obtain ⟨args, started⟩ := runScript_starts front begins none
        exact parts.mp (.inr (whole _ rfl _ _ _ _ started))
  · intro right host file path argv program args started
    obtain ⟨filled, same⟩ := runScript_replaced front file started
    rcases parts.mpr right with none | all
    · rw [none] at same
      exact absurd same filled
    · rw [same, all]

/-- `loader_detect_impl` reports, into buffers of any size, nothing or the whole interpreter path of
a script exactly when the path is seen whole, not at all, or to a length that does not fit; and
`run_script` starts only whole paths exactly when it is seen whole or not at all. -/
theorem interpreter_whole_iff (bytes delivered : List UInt8) (script : shebang <+: bytes)
    (front : delivered <+: bytes) :
    (∀ nameSize interpSize, ReportsWhole bytes delivered nameSize interpSize ↔
      seenLength (interpreterPath bytes) delivered.length = (interpreterPath bytes).length ∨
        seenLength (interpreterPath bytes) delivered.length = 0 ∨
        interpSize ≤ seenLength (interpreterPath bytes) delivered.length + 1) ∧
      (StartsWhole bytes delivered ↔
        seenLength (interpreterPath bytes) delivered.length = (interpreterPath bytes).length ∨
          seenLength (interpreterPath bytes) delivered.length = 0) :=
  ⟨reportsWhole_iff script front, startsWhole_iff script front⟩

end

/-- The interpreter of a script of the shell is reported whole. -/
theorem shell_script_whole :
    ReportsWhole (lit "#!/bin/sh\necho\n") (lit "#!/bin/sh\necho\n") 0 256 :=
  ((interpreter_whole_iff (lit "#!/bin/sh\necho\n") (lit "#!/bin/sh\necho\n")
    (List.isPrefixOf_iff_prefix.mp (by decide)) (List.prefix_refl _)).1 0 256).mpr
      (.inl (by decide))

/-- A script with an interpreter in a long directory. -/
def longScript : List UInt8 := lit "#!/" ++ List.replicate 80 97 ++ lit "/sh\n"

/-- A path that goes on behind the first 64 bytes is reported and started without its end. -/
theorem long_path_cut :
    (loaderDetectImpl (.ok longScript) 0 256).interpreter = some (lit "/" ++ List.replicate 61 97) ∧
      ¬ ReportsWhole longScript longScript 0 256 ∧ ¬ StartsWhole longScript longScript := by
  have reported : (loaderDetectImpl (.ok longScript) 0 256).interpreter =
      some (lit "/" ++ List.replicate 61 97) := by decide +kernel
  have started : runScript { shellScriptHost with file := .ok longScript } [] none =
      .replaced (lit "/" ++ List.replicate 61 97) [lit "/" ++ List.replicate 61 97, []] := by
    have interp : (loaderDetectImpl (.ok longScript) 0 256).interpreter.getD [] =
        lit "/" ++ List.replicate 61 97 := by rw [reported]; rfl
    have rc : (loaderDetectImpl (.ok longScript) 0 256).rc = 0 := by decide +kernel
    have fmt : (loaderDetectImpl (.ok longScript) 0 256).fmt = .script := by decide +kernel
    unfold runScript
    dsimp only
    rw [interp, rc, fmt]
    rfl
  have cut : lit "/" ++ List.replicate 61 97 ≠ interpreterPath longScript := by decide +kernel
  refine ⟨reported, ?_, ?_⟩
  · intro whole
    rcases whole _ reported with none | all
    · exact absurd none (by decide)
    · exact cut all
  · intro whole
    exact cut (whole _ rfl _ _ _ _ started)

end HwrunOs.Loader
