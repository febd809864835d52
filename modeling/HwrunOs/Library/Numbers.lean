import HwrunOs.Library.Bytes
import Mathlib.Algebra.Group.Nat.Defs

/-!
# Numbers at the front of a text

`scanNumber` reads blanks, an optional sign and digits. This module states the texts that it
reads as a structure of their own, and that it reads nothing else.
-/

namespace HwrunOs.Bytes

/-- Blanks, an optional sign and digits. -/
structure NumberText where
  /-- The blanks in front. -/
  blanks : CString
  /-- The sign. -/
  sign : CString
  /-- The digits. -/
  digits : CString
  /-- Only blanks stand in front. -/
  spaces : ∀ byte ∈ blanks, isSpace byte = true
  /-- There is at most one sign. -/
  signs : sign = [] ∨ sign = [43] ∨ sign = [45]
  /-- There is a digit. -/
  filled : digits ≠ []
  /-- Only digits stand behind the sign. -/
  numerals : ∀ byte ∈ digits, isDigit byte = true

namespace NumberText

/-- The text of a number. -/
def text (number : NumberText) : CString := number.blanks ++ number.sign ++ number.digits

/-- The number has a minus sign. -/
def negative (number : NumberText) : Bool := number.sign == [45]

/-- The magnitude of a number. -/
def magnitude (number : NumberText) : Nat := digitsValue number.digits

/-- The number is written with digits alone. -/
def Plain (number : NumberText) : Prop := number.blanks = [] ∧ number.sign = []

end NumberText

/-- Reading a sign takes it away, and takes nothing else. -/
theorem scanSign_sign {sign digits : CString} (signs : sign = [] ∨ sign = [43] ∨ sign = [45])
    (first : ∀ byte ∈ digits.head?, isDigit byte = true) :
    scanSign (sign ++ digits) = (sign == [45], digits) := by
  rcases signs with rfl | rfl | rfl
  · cases digits with
    | nil => rfl
    | cons byte digits =>
      obtain ⟨-, minus, plus⟩ := digit_plain (first byte rfl)
      exact scanSign_plain minus plus
  · rfl
  · rfl

/-- What `scanSign` leaves stands behind an optional sign. -/
theorem scanSign_split (text : CString) :
    ∃ sign, (sign = [] ∨ sign = [43] ∨ sign = [45]) ∧ text = sign ++ (scanSign text).2 ∧
      (scanSign text).1 = (sign == [45]) := by
  unfold scanSign
  split
  · exact ⟨[45], .inr (.inr rfl), rfl, rfl⟩
  · exact ⟨[43], .inr (.inl rfl), rfl, rfl⟩
  · exact ⟨[], .inl rfl, rfl, rfl⟩

/-- A number in front of a text that goes on without a digit is read as it is. -/
theorem scanNumber_text (number : NumberText) {rest : CString}
    (ends : ∀ byte ∈ rest.head?, isDigit byte = false) :
    scanNumber (number.text ++ rest) = some (number.negative, number.magnitude, rest) := by
  obtain ⟨first, others, shape⟩ := List.exists_cons_of_ne_nil number.filled
  have digit : isDigit first = true := number.numerals first (by simp [shape])
  have skipped : (number.text ++ rest).dropWhile isSpace =
      number.sign ++ (number.digits ++ rest) := by
    rw [NumberText.text, List.append_assoc, List.append_assoc,
      List.dropWhile_append_of_pos number.spaces]
    rcases number.signs with same | same | same
    · rw [same, List.nil_append, shape, List.cons_append,
        List.dropWhile_cons_of_neg (by simp [(digit_plain digit).1])]
    · rw [same]
      exact List.dropWhile_cons_of_neg (by decide)
    · rw [same]
      exact List.dropWhile_cons_of_neg (by decide)
  have front : ∀ byte ∈ (number.digits ++ rest).head?, isDigit byte = true := by
    intro byte front
    rw [shape, List.cons_append, List.head?_cons, Option.mem_some_iff] at front
    exact front ▸ digit
  have signed := scanSign_sign number.signs front
  obtain ⟨taken, dropped⟩ := digits_span number.numerals ends
  rw [scanNumber, skipped, signed]
  simp only [taken, dropped, List.isEmpty_iff, number.filled, if_false]
  rfl

/-- A printed signed number in front of other text is read with its sign and magnitude. -/
theorem scanNumber_signed (value : Int) {rest : CString}
    (ends : ∀ byte ∈ rest.head?, isDigit byte = false) :
    scanNumber (signedDecimal value ++ rest) =
      some (decide (value < 0), value.natAbs, rest) := by
  by_cases negative : value < 0
  · rw [signedDecimal, if_pos negative, List.cons_append, scanNumber_minus _ _ ends,
      decide_eq_true negative]
  · rw [signedDecimal, if_neg negative, scanNumber_decimal _ _ ends, decide_eq_false negative]

/-- Whatever is read as a number is one, and the text goes on without a digit. -/
theorem scanNumber_shape {text rest : CString} {negative : Bool} {value : Nat}
    (read : scanNumber text = some (negative, value, rest)) :
    ∃ number : NumberText, text = number.text ++ rest ∧ negative = number.negative ∧
      value = number.magnitude ∧ ∀ byte ∈ rest.head?, isDigit byte = false := by
  obtain ⟨sign, signs, split, minus⟩ := scanSign_split (text.dropWhile isSpace)
  have filled : ((scanSign (text.dropWhile isSpace)).2.takeWhile isDigit) ≠ [] := by
    intro none
    rw [scanNumber] at read
    simp [none] at read
  have parts : scanNumber text = some ((scanSign (text.dropWhile isSpace)).1,
      digitsValue ((scanSign (text.dropWhile isSpace)).2.takeWhile isDigit),
      (scanSign (text.dropWhile isSpace)).2.dropWhile isDigit) := by
    rw [scanNumber]
    simp only [List.isEmpty_iff, filled, if_false]
  rw [read, Option.some.injEq, Prod.mk.injEq, Prod.mk.injEq] at parts
  obtain ⟨negativeEq, valueEq, restEq⟩ := parts
  refine ⟨⟨text.takeWhile isSpace, sign, _, fun byte => List.mem_takeWhile_imp, signs, filled,
    fun byte => List.mem_takeWhile_imp⟩, ?_, negativeEq.trans minus, valueEq, ?_⟩
  · have whole := List.takeWhile_append_dropWhile (p := isSpace) (l := text)
    have digits := List.takeWhile_append_dropWhile (p := isDigit)
      (l := (scanSign (text.dropWhile isSpace)).2)
    show text = text.takeWhile isSpace ++ sign ++ _ ++ rest
    rw [restEq, List.append_assoc, List.append_assoc, digits, ← split, whole]
  · rw [restEq]
    intro byte front
    have stopped := List.head?_dropWhile_not isDigit (scanSign (text.dropWhile isSpace)).2
    rw [Option.mem_def] at front
    rw [front] at stopped
    simpa using stopped

/-! ## Printed numbers that are cut -/

/-- Digits denote a number with as many digits. -/
theorem digitsValue_lt {digits : CString} (numerals : ∀ byte ∈ digits, isDigit byte = true) :
    digitsValue digits < 10 ^ digits.length := by
  induction digits using List.reverseRecOn with
  | nil => exact Nat.one_pos
  | append_singleton digits digit ih =>
    have front := ih fun byte found => numerals byte (List.mem_append_left _ found)
    have last : isDigit digit = true := numerals digit (by simp)
    simp only [isDigit, Bool.and_eq_true, decide_eq_true_eq, UInt8.le_iff_toNat_le] at last
    have whole : digitsValue (digits ++ [digit]) =
        10 * digitsValue digits + (digit.toNat - 48) := by
      rw [digitsValue, List.foldl_append]
      rfl
    have high : digit.toNat ≤ 57 := last.2
    rw [whole, List.length_append, List.length_singleton, Nat.pow_succ]
    omega

/-- A printed number that loses digits at its end is a smaller one. -/
theorem digitsValue_take_lt {value count : Nat} (filled : 0 < count)
    (cut : count < (decimal value).length) :
    digitsValue ((decimal value).take count) < value := by
  have digits : ∀ byte ∈ (decimal value).take count, isDigit byte = true := fun byte found =>
    decimal_digits value byte (List.mem_of_mem_take found)
  have small := digitsValue_lt digits
  rw [List.length_take, Nat.min_eq_left (Nat.le_of_lt cut)] at small
  have large : 10 ^ count ≤ value := by
    by_contra less
    rw [decimal, List.length_map] at cut
    have short := (Nat.length_toDigits_le_iff (by decide) filled).mpr (Nat.lt_of_not_le less)
    omega
  omega

/-- `strtoull` reads digits as the number that they denote. -/
theorem strtoull_digits {digits : CString} (filled : digits ≠ [])
    (numerals : ∀ byte ∈ digits, isDigit byte = true) (bound : digitsValue digits < 2 ^ 64) :
    strtoull digits = (digitsValue digits, []) := by
  have ends : ∀ byte ∈ ([] : CString).head?, isDigit byte = false := by simp
  have read := scanNumber_digits filled numerals ends
  rw [List.append_nil] at read
  rw [strtoull, read]
  simp only [if_neg (Nat.not_le.mpr bound), Bool.false_eq_true, if_false]

end HwrunOs.Bytes
