import HwrunOs.Audit.Store
import HwrunOs.Library.Numbers

/-!
# Sizes of the audit log

`parse_size` leaves the number to `strtoull`, which skips blanks, takes a sign and negates
modulo `2^64`. The sizes that are accepted are stated here, and beside them the sizes that the
comment of the function describes.
-/

namespace HwrunOs.Audit

open HwrunOs.Bytes

/-- A unit letter in either case, and its factor. -/
def UnitLetter (letter : UInt8) (factor : Nat) : Prop :=
  (letter = 107 ∨ letter = 75) ∧ factor = 1024 ∨
    (letter = 109 ∨ letter = 77) ∧ factor = 1024 * 1024 ∨
    (letter = 103 ∨ letter = 71) ∧ factor = 1024 * 1024 * 1024

/-- What may stand behind the number of a size: nothing, or one unit letter with an optional
`b`. -/
def SizeSuffix (suffix : CString) (factor : Nat) : Prop :=
  suffix = [] ∧ factor = 1 ∨
    ∃ letter, UnitLetter letter factor ∧
      (suffix = [letter] ∨ suffix = [letter, 98] ∨ suffix = [letter, 66])

/-- A size as the comment of `parse_size` describes it: a positive decimal number with an
optional unit, and the bytes that it stands for. -/
def SizeText (text : CString) (bytes : Nat) : Prop :=
  ∃ digits suffix factor, digits ≠ [] ∧ (∀ byte ∈ digits, isDigit byte = true) ∧
    0 < digitsValue digits ∧ SizeSuffix suffix factor ∧ text = digits ++ suffix ∧
    bytes = digitsValue digits * factor

/-- The key of the size limit. -/
def maxBytesKey : CString := lit "audit.log.max_bytes"

/-- `parse_size` takes a text only as the size that it describes, and any other text is refused
and leaves the configuration as it is. -/
def SizeExact (text : CString) : Prop :=
  (∀ size, parseSize text = some size → SizeText text size.toNat) ∧
    ((∀ bytes, ¬ SizeText text bytes) →
      parseSize text = none ∧
        ∀ store, configure store (some maxBytesKey) (some text) = (store, einval))

/-- The 64 bits that `strtoull` makes of a number. -/
def wrapped (number : NumberText) : Nat :=
  if number.negative then 2 ^ 64 - number.magnitude else number.magnitude

/-- A number and a unit behind it that `parse_size` accepts. -/
structure AcceptedSize where
  /-- The number. -/
  number : NumberText
  /-- The unit. -/
  suffix : CString
  /-- The factor of the unit. -/
  factor : Nat
  /-- The unit is one. -/
  unit : SizeSuffix suffix factor
  /-- The number is not zero. -/
  positive : 0 < number.magnitude
  /-- The number is one of 64 bits. -/
  bound : number.magnitude < 2 ^ 64
  /-- The product is one of 64 bits. -/
  fits : wrapped number * factor < 2 ^ 64

/-- The text of an accepted size. -/
def AcceptedSize.text (accepted : AcceptedSize) : CString :=
  accepted.number.text ++ accepted.suffix

/-- A size behind blanks or a sign whose value, negated modulo `2^64` when the sign is a minus,
fits in 64 bits with its unit. -/
def LooseSize (text : CString) : Prop :=
  ∃ accepted : AcceptedSize, text = accepted.text ∧ ¬ accepted.number.Plain

/-! ## Units -/

/-- The unit that the code finds is the one that is written. -/
theorem sizeUnit_eq_some_iff (suffix : CString) (factor : Nat) :
    sizeUnit suffix = some factor ↔ SizeSuffix suffix factor := by
  cases suffix with
  | nil =>
    constructor
    · intro found
      exact .inl ⟨rfl, (Option.some.inj found).symm⟩
    · rintro (⟨-, rfl⟩ | ⟨letter, -, shape | shape | shape⟩)
      · rfl
      · cases shape
      · cases shape
      · cases shape
  | cons letter rest =>
    have same : SizeSuffix (letter :: rest) factor ↔
        UnitLetter letter factor ∧ (rest = [] ∨ rest = [98] ∨ rest = [66]) := by
      constructor
      · rintro (⟨shape, -⟩ | ⟨other, unit, shape⟩)
        · cases shape
        · rcases shape with shape | shape | shape
          · obtain ⟨rfl, rfl⟩ := List.cons.inj shape
            exact ⟨unit, .inl rfl⟩
          · obtain ⟨rfl, rfl⟩ := List.cons.inj shape
            exact ⟨unit, .inr (.inl rfl)⟩
          · obtain ⟨rfl, rfl⟩ := List.cons.inj shape
            exact ⟨unit, .inr (.inr rfl)⟩
      · rintro ⟨unit, rfl | rfl | rfl⟩
        · exact .inr ⟨letter, unit, .inl rfl⟩
        · exact .inr ⟨letter, unit, .inr (.inl rfl)⟩
        · exact .inr ⟨letter, unit, .inr (.inr rfl)⟩
    rw [same, sizeUnit]
    by_cases behind : rest = [] ∨ rest = [98] ∨ rest = [66]
    · have kept : ¬ (rest ≠ [] ∧ rest ≠ [98] ∧ rest ≠ [66]) := by tauto
      rw [if_neg kept]
      by_cases kilo : letter = 107 ∨ letter = 75
      · rw [if_pos kilo]
        rcases kilo with rfl | rfl <;> simp [UnitLetter, behind, eq_comm]
      rw [if_neg kilo]
      by_cases mega : letter = 109 ∨ letter = 77
      · rw [if_pos mega]
        rcases mega with rfl | rfl <;> simp [UnitLetter, behind, eq_comm]
      rw [if_neg mega]
      by_cases giga : letter = 103 ∨ letter = 71
      · rw [if_pos giga]
        rcases giga with rfl | rfl <;> simp [UnitLetter, behind, eq_comm]
      rw [if_neg giga]
      simp [UnitLetter, kilo, mega, giga]
    · have refused : rest ≠ [] ∧ rest ≠ [98] ∧ rest ≠ [66] := by tauto
      rw [if_pos refused]
      simp [behind]

/-- A factor is positive. -/
theorem SizeSuffix.factor_pos {suffix : CString} {factor : Nat} (unit : SizeSuffix suffix factor) :
    0 < factor := by
  rcases unit with ⟨-, rfl⟩ | ⟨letter, ⟨-, rfl⟩ | ⟨-, rfl⟩ | ⟨-, rfl⟩, -⟩ <;> decide

/-- A unit does not start with a digit. -/
theorem SizeSuffix.ends {suffix : CString} {factor : Nat} (unit : SizeSuffix suffix factor) :
    ∀ byte ∈ suffix.head?, isDigit byte = false := by
  have front : suffix = [] ∨ ∃ letter rest, suffix = letter :: rest ∧
      (letter = 107 ∨ letter = 75 ∨ letter = 109 ∨ letter = 77 ∨ letter = 103 ∨ letter = 71) := by
    rcases unit with ⟨rfl, -⟩ | ⟨letter, unit, shape⟩
    · exact .inl rfl
    · have known : letter = 107 ∨ letter = 75 ∨ letter = 109 ∨ letter = 77 ∨ letter = 103 ∨
          letter = 71 := by
        unfold UnitLetter at unit
        tauto
      rcases shape with rfl | rfl | rfl
      · exact .inr ⟨letter, [], rfl, known⟩
      · exact .inr ⟨letter, [98], rfl, known⟩
      · exact .inr ⟨letter, [66], rfl, known⟩
  rcases front with rfl | ⟨letter, rest, rfl, known⟩
  · simp
  · intro byte found
    obtain rfl := Option.some.inj found
    rcases known with rfl | rfl | rfl | rfl | rfl | rfl <;> decide

/-! ## Accepted sizes -/

/-- `strtoull` wraps a number of 64 bits. -/
theorem strtoull_wrapped {text rest : CString} {number : NumberText}
    (read : scanNumber text = some (number.negative, number.magnitude, rest))
    (positive : 0 < number.magnitude) (bound : number.magnitude < 2 ^ 64) :
    strtoull text = (wrapped number, rest) := by
  rw [strtoull, read]
  dsimp only
  rw [if_neg (Nat.not_le.mpr bound), wrapped]
  cases number.negative with
  | true =>
    have small : 2 ^ 64 - number.magnitude < 2 ^ 64 := by omega
    rw [if_pos rfl, if_pos rfl, Nat.mod_eq_of_lt small]
  | false => rw [if_neg Bool.false_ne_true, if_neg Bool.false_ne_true]

/-- The number that is wrapped is positive. -/
theorem wrapped_pos {number : NumberText} (positive : 0 < number.magnitude)
    (bound : number.magnitude < 2 ^ 64) : 0 < wrapped number := by
  unfold wrapped
  split
  · omega
  · exact positive

/-- An accepted size is parsed as the product of its wrapped number and its factor. -/
theorem AcceptedSize.parse (accepted : AcceptedSize) :
    parseSize accepted.text =
      some (UInt64.ofNat (wrapped accepted.number * accepted.factor)) := by
  have read : scanNumber accepted.text =
      some (accepted.number.negative, accepted.number.magnitude, accepted.suffix) :=
    scanNumber_text accepted.number accepted.unit.ends
  have positive := wrapped_pos accepted.positive accepted.bound
  have longer : accepted.suffix.length < accepted.text.length := by
    have digits := List.length_pos_of_ne_nil accepted.number.filled
    simp only [AcceptedSize.text, NumberText.text, List.length_append]
    omega
  have filled : accepted.text ≠ [] := List.ne_nil_of_length_pos (by omega)
  have moved : accepted.suffix ≠ accepted.text := by
    intro same
    rw [← same] at longer
    exact Nat.lt_irrefl _ longer
  have calm : strtoullOverflows accepted.text = false := by
    rw [strtoullOverflows, read]
    exact decide_eq_false (Nat.not_le.mpr accepted.bound)
  have room : ¬ (2 ^ 64 - 1) / accepted.factor < wrapped accepted.number := by
    have fits := accepted.fits
    have upper : wrapped accepted.number ≤ (2 ^ 64 - 1) / accepted.factor :=
      (Nat.le_div_iff_mul_le accepted.unit.factor_pos).mpr (by omega)
    exact Nat.not_lt.mpr upper
  rw [parseSize, strtoull_wrapped read accepted.positive accepted.bound]
  dsimp only
  rw [if_neg (by
    rintro (nothing | overflow | same | zero)
    · exact filled nothing
    · rw [calm] at overflow
      cases overflow
    · exact moved same
    · omega), (sizeUnit_eq_some_iff accepted.suffix accepted.factor).mpr accepted.unit]
  dsimp only
  rw [if_neg room]

/-- Whatever is parsed is an accepted size. -/
theorem accepted_of_parse {text : CString} {size : UInt64} (parsed : parseSize text = some size) :
    ∃ accepted : AcceptedSize, text = accepted.text ∧
      size.toNat = wrapped accepted.number * accepted.factor := by
  rw [parseSize] at parsed
  dsimp only at parsed
  split at parsed
  · cases parsed
  rename_i kept
  simp only [not_or, Bool.not_eq_true] at kept
  obtain ⟨filled, calm, moved, nonzero⟩ := kept
  cases unit : sizeUnit (strtoull text).2 with
  | none =>
    rw [unit] at parsed
    cases parsed
  | some factor =>
    rw [unit] at parsed
    dsimp only at parsed
    split at parsed
    · cases parsed
    rename_i room
    obtain rfl := Option.some.inj parsed
    cases read : scanNumber text with
    | none =>
      rw [strtoull, read] at moved
      exact absurd rfl moved
    | some found =>
      obtain ⟨negative, value, rest⟩ := found
      have bound : value < 2 ^ 64 := by
        rw [strtoullOverflows, read, decide_eq_false_iff_not] at calm
        exact Nat.not_le.mp calm
      obtain ⟨number, whole, rfl, rfl, ends⟩ := scanNumber_shape read
      have positive : 0 < number.magnitude := by
        refine Nat.pos_of_ne_zero fun zero => nonzero ?_
        rw [strtoull, read, zero]
        cases number.negative <;> rfl
      have made := strtoull_wrapped read positive bound
      rw [made] at unit room ⊢
      have suffix := (sizeUnit_eq_some_iff rest factor).mp unit
      have upper : wrapped number * factor ≤ 2 ^ 64 - 1 :=
        (Nat.le_div_iff_mul_le suffix.factor_pos).mp (Nat.not_lt.mp room)
      have fits : wrapped number * factor < 2 ^ 64 := by omega
      exact ⟨⟨number, rest, factor, suffix, positive, bound, fits⟩, whole,
        UInt64.toNat_ofNat_of_lt' fits⟩

/-- A size that is written with digits alone is one that the comment describes. -/
theorem AcceptedSize.sizeText (accepted : AcceptedSize) (plain : accepted.number.Plain) :
    SizeText accepted.text (wrapped accepted.number * accepted.factor) := by
  obtain ⟨blanks, sign⟩ := plain
  have digits : accepted.number.text = accepted.number.digits := by
    rw [NumberText.text, blanks, sign]
    rfl
  have same : wrapped accepted.number = digitsValue accepted.number.digits := by
    rw [wrapped, NumberText.negative, sign]
    rfl
  exact ⟨accepted.number.digits, accepted.suffix, accepted.factor, accepted.number.filled,
    accepted.number.numerals, accepted.positive, accepted.unit,
    by rw [AcceptedSize.text, digits], by rw [same]⟩

/-- A size that the comment describes starts with a digit. -/
theorem SizeText.front {text : CString} {bytes : Nat} (size : SizeText text bytes) :
    ∃ digit rest, text = digit :: rest ∧ isDigit digit = true := by
  obtain ⟨digits, suffix, factor, filled, numerals, -, -, rfl, -⟩ := size
  obtain ⟨digit, others, rfl⟩ := List.exists_cons_of_ne_nil filled
  exact ⟨digit, others ++ suffix, rfl, numerals digit List.mem_cons_self⟩

/-- Blanks or a sign in front are not a digit. -/
theorem AcceptedSize.not_sizeText (accepted : AcceptedSize) (loose : ¬ accepted.number.Plain)
    (bytes : Nat) : ¬ SizeText accepted.text bytes := by
  intro size
  obtain ⟨digit, rest, whole, numeral⟩ := size.front
  obtain ⟨notSpace, notMinus, notPlus⟩ := Bytes.digit_plain numeral
  rw [AcceptedSize.text, NumberText.text, List.append_assoc, List.append_assoc] at whole
  cases blanks : accepted.number.blanks with
  | cons blank others =>
    rw [blanks, List.cons_append] at whole
    have space := accepted.number.spaces blank (by simp [blanks])
    rw [(List.cons.inj whole).1, notSpace] at space
    cases space
  | nil =>
    rw [blanks, List.nil_append] at whole
    rcases accepted.number.signs with sign | sign | sign
    · exact loose ⟨blanks, sign⟩
    · rw [sign] at whole
      exact notPlus (List.cons.inj whole).1.symm
    · rw [sign] at whole
      exact notMinus (List.cons.inj whole).1.symm

/-- A size that is refused leaves the configuration as it is. -/
theorem configure_refused {text : CString} (refused : parseSize text = none) (store : Store) :
    configure store (some maxBytesKey) (some text) = (store, einval) := by
  have other : ¬ maxBytesKey = lit "audit.log.path" := by decide
  have this : maxBytesKey = lit "audit.log.max_bytes" := rfl
  rw [configure, if_neg other, if_pos this, refused]

/-- A size is taken as what it says and only then, exactly when no blanks or sign stand in front of
a number that `strtoull` makes fit. -/
theorem sizeExact_iff (text : CString) : SizeExact text ↔ ¬ LooseSize text := by
  constructor
  · rintro ⟨sound, -⟩ ⟨accepted, rfl, loose⟩
    exact accepted.not_sizeText loose _ (sound _ accepted.parse)
  · intro tight
    have sound : ∀ size, parseSize text = some size → SizeText text size.toNat := by
      intro size parsed
      obtain ⟨accepted, rfl, value⟩ := accepted_of_parse parsed
      have plain : accepted.number.Plain := by
        by_contra loose
        exact tight ⟨accepted, rfl, loose⟩
      rw [value]
      exact accepted.sizeText plain
    refine ⟨sound, fun other => ?_⟩
    have refused : parseSize text = none := by
      cases parsed : parseSize text with
      | none => rfl
      | some size => exact absurd (sound size parsed) (other size.toNat)
    exact ⟨refused, configure_refused refused⟩

/-- `-1` is taken as a limit of `2^64 - 1` bytes. -/
theorem sizeExact_minus_one : ¬ SizeExact (lit "-1") := by
  rintro ⟨sound, -⟩
  have size := sound (UInt64.ofNat (2 ^ 64 - 1)) (by decide)
  obtain ⟨digit, rest, front, numeral⟩ := size.front
  have minus : digit = 45 := (List.cons.inj front).1.symm
  subst minus
  cases numeral

end HwrunOs.Audit
