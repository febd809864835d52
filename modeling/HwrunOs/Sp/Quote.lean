import HwrunOs.Library.Shell

/-!
# Quoting for the shell

`sp_q` of `sp/src/sp_util.c` puts a text between single quotes, for the commands that `sp_sh`
runs. Its loop stops six bytes before the end of the buffer, with or without text left.
-/

namespace HwrunOs.Sp

open HwrunOs.Bytes HwrunOs.Shells

/-- The loop of `sp_q`, with what is in the buffer. -/
def quoteLoop (cap : Nat) (buf : CString) : CString → CString
  | [] => buf
  | byte :: rest =>
    if buf.length + 6 < cap then
      quoteLoop cap (if byte == 39 then buf ++ [39, 92, 39, 39] else buf ++ [byte]) rest
    else buf

/-- `sp_q`, with the size of the buffer, if there is one. -/
def spQ (text : Option CString) (buf : Option Nat) : Option CString :=
  match text, buf with
  | some text, some cap =>
    if cap = 0 then none
    else
      let quoted := quoteLoop cap [39] text
      if cap < quoted.length + 2 then none else some (quoted ++ [39])
  | _, _ => none

/-! ## What the loop takes -/

/-- One pass writes the byte as it stands between single quotes. -/
theorem quoteLoop_cons {cap : Nat} {buf : CString} (byte : UInt8) (rest : CString)
    (room : buf.length + 6 < cap) :
    quoteLoop cap buf (byte :: rest) = quoteLoop cap (buf ++ singleByte byte) rest := by
  rw [quoteLoop, if_pos room, singleByte, apply_ite (buf ++ ·)]

/-- The loop writes a part of the text from its start. It stops at the end of the text or where
less than seven bytes are left. -/
theorem quoteLoop_parts (cap : Nat) (text buf : CString) : ∃ taken left,
    text = taken ++ left ∧ quoteLoop cap buf text = buf ++ singleQuoted taken ∧
      (left = [] ∨ cap ≤ (buf ++ singleQuoted taken).length + 6) ∧
      (taken = [] ∨ (buf ++ singleQuoted taken.dropLast).length + 6 < cap) := by
  induction text generalizing buf with
  | nil => exact ⟨[], [], rfl, (List.append_nil buf).symm, .inl rfl, .inl rfl⟩
  | cons byte rest ih =>
    by_cases room : buf.length + 6 < cap
    · obtain ⟨taken, left, parts, written, stopped, last⟩ := ih (buf ++ singleByte byte)
      have grown : buf ++ singleByte byte ++ singleQuoted taken =
          buf ++ singleQuoted (byte :: taken) := List.append_assoc _ _ _
      refine ⟨byte :: taken, left, by rw [parts, List.cons_append], ?_, ?_, .inr ?_⟩
      · rw [quoteLoop_cons byte rest room, written, grown]
      · rw [← grown]
        exact stopped
      · cases taken with
        | nil => simpa [singleQuoted] using room
        | cons second taken =>
          have room := last.resolve_left (List.cons_ne_nil _ _)
          rw [List.append_assoc] at room
          exact room
    · have stopped : quoteLoop cap buf (byte :: rest) = buf := by rw [quoteLoop, if_neg room]
      exact ⟨[], byte :: rest, rfl, by rw [stopped]; exact (List.append_nil buf).symm,
        .inr (by simp [singleQuoted]; omega), .inl rfl⟩

/-- The whole text is taken exactly when there is room for its last byte. -/
theorem quoteLoop_whole {cap : Nat} {text taken left buf : CString} (parts : text = taken ++ left)
    (stopped : left = [] ∨ cap ≤ (buf ++ singleQuoted taken).length + 6)
    (last : taken = [] ∨ (buf ++ singleQuoted taken.dropLast).length + 6 < cap) :
    left = [] ↔ text = [] ∨ (buf ++ singleQuoted text.dropLast).length + 6 < cap := by
  constructor
  · rintro rfl
    rw [parts, List.append_nil]
    exact last
  · rintro (rfl | room)
    · exact (List.nil_eq_append_iff.mp parts).2
    · by_contra more
      have short := stopped.resolve_left more
      have inside : text.dropLast = taken ++ left.dropLast := by
        rw [parts, List.dropLast_append_of_ne_nil more]
      rw [inside, singleQuoted_append] at room
      simp only [List.length_append] at room short
      omega

/-! ## What the caller gets -/

/-- A buffer of three bytes is enough for an answer. -/
theorem spQ_cases (text : CString) (cap : Nat) :
    (cap < 3 ∧ spQ (some text) (some cap) = none) ∨
      (3 ≤ cap ∧ ∃ taken left, text = taken ++ left ∧
        spQ (some text) (some cap) = some (39 :: (singleQuoted taken ++ [39])) ∧
        (left = [] ↔ text = [] ∨ (singleQuoted text.dropLast).length + 7 < cap)) := by
  obtain ⟨taken, left, parts, written, stopped, last⟩ := quoteLoop_parts cap text [39]
  have whole := quoteLoop_whole parts stopped last
  have length : ([39] ++ singleQuoted taken).length = 1 + (singleQuoted taken).length :=
    List.length_append
  by_cases small : cap < 3
  · left
    refine ⟨small, ?_⟩
    unfold spQ
    dsimp only
    by_cases zero : cap = 0
    · rw [if_pos zero]
    · rw [if_neg zero, written, if_pos (by omega)]
  · right
    -- The last byte that is written starts seven bytes before the end and takes at most four.
    have fits : 1 + (singleQuoted taken).length + 2 ≤ cap := by
      rcases last with rfl | room
      · show 1 + 0 + 2 ≤ cap
        omega
      · by_cases empty : taken = []
        · rw [empty]
          show 1 + 0 + 2 ≤ cap
          omega
        · have cut := List.dropLast_append_getLast empty
          have most := (singleByte_length (taken.getLast empty)).2
          have split : singleQuoted taken =
              singleQuoted taken.dropLast ++ singleByte (taken.getLast empty) := by
            conv_lhs => rw [← cut]
            rw [singleQuoted_append]
            simp [singleQuoted]
          rw [split, List.length_append]
          rw [List.length_append, List.length_singleton] at room
          omega
    have bound : ([39] ++ singleQuoted text.dropLast).length + 6 =
        (singleQuoted text.dropLast).length + 7 := by
      rw [List.length_append, List.length_singleton]
      omega
    rw [bound] at whole
    refine ⟨by omega, taken, left, parts, ?_, whole⟩
    unfold spQ
    dsimp only
    rw [if_neg (by omega), written, if_neg (by omega)]
    rfl

/-- The answer is one word, the text, exactly when the buffer has room for the last byte of the
text or for no answer at all. -/
theorem spQ_word_iff (text : CString) (cap : Nat) :
    (∀ answer, spQ (some text) (some cap) = some answer →
        ∀ shell : Shell, shell.tokens answer = some ([.word text], [])) ↔
      cap < 3 ∨ text = [] ∨ (singleQuoted text.dropLast).length + 7 < cap := by
  rcases spQ_cases text cap with ⟨small, refused⟩ | ⟨enough, taken, left, parts, given, whole⟩
  · rw [refused]
    exact ⟨fun _ => .inl small, fun _ answer given => by cases given⟩
  · rw [given]
    have word (shell : Shell) := tokens_singleQuoted shell taken
    constructor
    · intro reads
      have same := (word ⟨fun _ => none⟩).symm.trans (reads _ rfl ⟨fun _ => none⟩)
      have taken_eq : taken = text := by
        injection same with same
        simpa using same
      have ended : left = [] := by
        rw [taken_eq] at parts
        exact List.self_eq_append_right.mp parts
      exact .inr (whole.mp ended)
    · intro room answer same shell
      obtain rfl := Option.some.inj same
      have ended : left = [] := whole.mpr (room.resolve_left (by omega))
      rw [parts, ended, List.append_nil]
      exact word shell

/-- A buffer of eight bytes: one byte of two is quoted. -/
theorem path_cut :
    spQ (some (lit "ab")) (some 8) = some (lit "'a'") ∧
      ¬ (∀ answer, spQ (some (lit "ab")) (some 8) = some answer →
        ∀ shell : Shell, shell.tokens answer = some ([.word (lit "ab")], [])) := by
  have cut : spQ (some (lit "ab")) (some 8) = some (lit "'a'") := by decide
  refine ⟨cut, fun reads => ?_⟩
  have whole := reads _ cut ⟨fun _ => none⟩
  exact absurd whole (by decide +kernel)

end HwrunOs.Sp
