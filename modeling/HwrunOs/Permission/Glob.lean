import HwrunOs.Permission.Decision

/-!
# The calls of the pattern match

`glob_match` calls itself for the rest of a pattern, and at a star once for every end of the
text. The calls and the turns of the loop are counted here, and a bound on them shows that the
function always returns.
-/

namespace HwrunOs.Permission

open HwrunOs.Bytes

mutual

/-- One call of `glob_match` on what is left of a pattern and of a text; `none` when the calls
and turns allowed do not suffice. -/
def globCall : Nat → CString → CString → Option Bool
  | 0, _, _ => none
  | _ + 1, [], text => some text.isEmpty
  | fuel + 1, byte :: pattern, text =>
    if byte = 42 then globLoop fuel pattern text
    else match text with
      | [] => some false
      | first :: rest =>
        if byte = 63 ∨ byte = first then globCall fuel pattern rest else some false

/-- The loop of `glob_match` at a star: the rest of the pattern is tried at this end of the
text, then at the next one, until the text is used up. -/
def globLoop : Nat → CString → CString → Option Bool
  | 0, _, _ => none
  | fuel + 1, pattern, text =>
    match globCall fuel pattern text with
    | none => none
    | some true => some true
    | some false =>
      match text with
      | [] => some false
      | _ :: rest => globLoop fuel pattern rest

end

/-- The loop answers whether some end of the text matches, once each of its calls answers. -/
theorem globLoop_eq {pattern : CString} {bound : Nat}
    (answers : ∀ text fuel, bound + text.length ≤ fuel →
      globCall fuel pattern text = some (globMatch pattern text)) :
    ∀ text fuel, bound + text.length + 1 ≤ fuel →
      globLoop fuel pattern text = some (text.tails.any (globMatch pattern)) := by
  intro text
  induction text with
  | nil =>
    intro fuel enough
    cases fuel with
    | zero => omega
    | succ fuel =>
      have answer := answers [] fuel (by omega)
      cases found : globMatch pattern [] with
      | true => simp [globLoop, answer, found]
      | false => simp [globLoop, answer, found]
  | cons first rest ih =>
    intro fuel enough
    rw [List.length_cons] at enough
    cases fuel with
    | zero => omega
    | succ fuel =>
      have answer := answers (first :: rest) fuel (by rw [List.length_cons]; omega)
      have later := ih fuel (by omega)
      cases found : globMatch pattern (first :: rest) with
      | true => simp [globLoop, answer, found]
      | false => simp [globLoop, answer, found, later]

/-- Two calls or turns for each byte of the pattern and one for each byte of the text suffice
for the answer. -/
theorem globCall_eq (pattern : CString) : ∀ text fuel,
    2 * pattern.length + 1 + text.length ≤ fuel →
      globCall fuel pattern text = some (globMatch pattern text) := by
  induction pattern with
  | nil =>
    intro text fuel enough
    cases fuel with
    | zero => omega
    | succ fuel => rfl
  | cons byte pattern ih =>
    intro text fuel enough
    rw [List.length_cons] at enough
    cases fuel with
    | zero => omega
    | succ fuel =>
      by_cases star : byte = 42
      · have loop := globLoop_eq ih text fuel (by omega)
        rw [star, globMatch_star, ← loop]
        simp [globCall]
      · cases text with
        | nil => simp [globCall, star, globMatch_end star]
        | cons first rest =>
          rw [List.length_cons] at enough
          have later := ih rest fuel (by omega)
          rw [globMatch_cons star]
          by_cases fits : byte = 63 ∨ byte = first
          · have taken : (byte == 63 || byte == first) = true := by
              rw [Bool.or_eq_true, beq_iff_eq, beq_iff_eq]
              exact fits
            simp only [globCall, star, if_false, fits, if_true, later, taken, Bool.true_and]
          · have refused : (byte == 63 || byte == first) = false := by
              rw [Bool.eq_false_iff, ne_eq, Bool.or_eq_true, beq_iff_eq, beq_iff_eq]
              exact fits
            simp only [globCall, star, if_false, fits, refused, Bool.false_and]

/-- `glob_match` returns for every pattern and text, and with one exactly when the text splits
into pieces that the bytes of the pattern cover. -/
theorem globMatch_returns (pattern text : CString) : ∃ fuel answer,
    (∀ further, globCall (fuel + further) pattern text = some answer) ∧
      (answer = true ↔ GlobMatches pattern text) := by
  refine ⟨2 * pattern.length + 1 + text.length, globMatch pattern text, ?_,
    globMatch_iff pattern text⟩
  intro further
  exact globCall_eq pattern text _ (by omega)

/-- Two stars around a byte, with the text of the first one cut in the middle. -/
example : globCall 12 (lit "*b*") (lit "abab") = some true := by decide

end HwrunOs.Permission
