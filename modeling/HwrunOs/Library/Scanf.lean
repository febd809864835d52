import HwrunOs.Library.Endian
import HwrunOs.Library.Numbers

/-!
# Formatted input

`sscanf` works through the conversions of its format, each behind the place where the one before
stopped, and ends with the first that fails. Every conversion here skips blanks first, so blanks
between conversions of a format mean nothing.
-/

namespace HwrunOs.Bytes

open HwrunOs.Endian

/-! ## Hexadecimal numbers -/

/-- A hexadecimal digit in either case. -/
def isHexDigit (byte : UInt8) : Bool :=
  isDigit byte || (65 ≤ byte && byte ≤ 70) || (97 ≤ byte && byte ≤ 102)

/-- What a hexadecimal digit stands for. -/
def hexDigitValue (byte : UInt8) : Nat :=
  if isDigit byte then byte.toNat - 48 else if byte ≤ 70 then byte.toNat - 55 else byte.toNat - 87

/-- The number a string of hexadecimal digits denotes. -/
def hexDigitsValue (digits : CString) : Nat :=
  digits.foldl (fun value digit => 16 * value + hexDigitValue digit) 0

/-- The digits behind an optional `0x`, whose zero counts as a digit. -/
def hexBody : CString → CString
  | 48 :: 120 :: rest => 48 :: rest
  | 48 :: 88 :: rest => 48 :: rest
  | rest => rest

/-- The sign, magnitude and rest of the hexadecimal number at the front of a text. -/
def scanHex (text : CString) : Option (Bool × Nat × CString) :=
  let (negative, body) := scanSign (text.dropWhile isSpace)
  let digits := hexBody body
  if (digits.takeWhile isHexDigit).isEmpty then none
  else some (negative, hexDigitsValue (digits.takeWhile isHexDigit), digits.dropWhile isHexDigit)

/-- An upper-case hexadecimal digit. -/
def upperDigit (value : UInt8) : UInt8 := if value < 10 then 48 + value else 55 + value

/-- `%02X`. -/
def hexByte (byte : UInt8) : CString := [upperDigit (byte >>> 4), upperDigit (byte &&& 15)]

/-- The two digits of a byte stand for it. -/
theorem hexByte_digits (byte : UInt8) :
    (∀ digit ∈ hexByte byte, isHexDigit digit = true) ∧
      16 * hexDigitValue (upperDigit (byte >>> 4)) + hexDigitValue (upperDigit (byte &&& 15)) =
        byte.toNat := by
  have known : ∀ value : Fin 256,
      (isHexDigit (upperDigit (UInt8.ofFin value >>> 4)) = true ∧
        isHexDigit (upperDigit (UInt8.ofFin value &&& 15)) = true) ∧
      16 * hexDigitValue (upperDigit (UInt8.ofFin value >>> 4)) +
        hexDigitValue (upperDigit (UInt8.ofFin value &&& 15)) = (UInt8.ofFin value).toNat := by
    decide +kernel
  obtain ⟨⟨high, low⟩, whole⟩ := known byte.toFin
  refine ⟨?_, whole⟩
  intro digit found
  rcases List.mem_cons.mp found with rfl | found
  · exact high
  · rw [List.mem_singleton.mp found]
    exact low

/-- The digits of bytes stand for the number with the most significant byte first. -/
theorem hexDigitsValue_bytes (bytes : List UInt8) :
    hexDigitsValue (bytes.flatMap hexByte) = leValue bytes.reverse := by
  induction bytes using List.reverseRecOn with
  | nil => rfl
  | append_singleton bytes byte ih =>
    have digits := (hexByte_digits byte).2
    have whole : (bytes ++ [byte]).flatMap hexByte = bytes.flatMap hexByte ++ hexByte byte := by
      simp
    have start : (bytes.flatMap hexByte).foldl
        (fun value digit => 16 * value + hexDigitValue digit) 0 = leValue bytes.reverse := ih
    rw [whole, hexDigitsValue, List.foldl_append, start, List.reverse_append]
    show 16 * (16 * leValue bytes.reverse + _) + _ = byte.toNat + 256 * leValue bytes.reverse
    omega

/-- A hexadecimal digit is no blank, no sign and no `x`. -/
theorem hexDigit_plain {byte : UInt8} (digit : isHexDigit byte = true) :
    isSpace byte = false ∧ byte ≠ 45 ∧ byte ≠ 43 ∧ byte ≠ 120 ∧ byte ≠ 88 := by
  have known : ∀ value : Fin 256, isHexDigit (UInt8.ofFin value) = true →
      isSpace (UInt8.ofFin value) = false ∧ UInt8.ofFin value ≠ 45 ∧ UInt8.ofFin value ≠ 43 ∧
        UInt8.ofFin value ≠ 120 ∧ UInt8.ofFin value ≠ 88 := by
    decide +kernel
  exact known byte.toFin digit

/-- A blank is neither a hexadecimal digit nor an `x`. -/
theorem space_plain {byte : UInt8} (space : isSpace byte = true) :
    isHexDigit byte = false ∧ byte ≠ 120 ∧ byte ≠ 88 := by
  have known : ∀ value : Fin 256, isSpace (UInt8.ofFin value) = true →
      isHexDigit (UInt8.ofFin value) = false ∧ UInt8.ofFin value ≠ 120 ∧
        UInt8.ofFin value ≠ 88 := by
    decide +kernel
  exact known byte.toFin space

/-- Digits without an `x` behind the first one are taken as they are. -/
theorem hexBody_plain {first : UInt8} {rest : CString}
    (next : ∀ byte ∈ rest.head?, byte ≠ 120 ∧ byte ≠ 88) :
    hexBody (first :: rest) = first :: rest := by
  unfold hexBody
  split
  · rename_i same
    obtain ⟨-, behind⟩ := List.cons.inj same
    exact absurd rfl (next 120 (by rw [behind]; rfl)).1
  · rename_i same
    obtain ⟨-, behind⟩ := List.cons.inj same
    exact absurd rfl (next 88 (by rw [behind]; rfl)).2
  · rfl

/-- Hexadecimal digits behind blanks and in front of a blank are read as their number. -/
theorem scanHex_digits {blanks digits rest : CString}
    (spaces : ∀ byte ∈ blanks, isSpace byte = true) (filled : digits ≠ [])
    (numerals : ∀ byte ∈ digits, isHexDigit byte = true)
    (ends : ∀ byte ∈ rest.head?, isSpace byte = true) :
    scanHex (blanks ++ (digits ++ rest)) = some (false, hexDigitsValue digits, rest) := by
  obtain ⟨first, others, shape⟩ := List.exists_cons_of_ne_nil filled
  obtain ⟨solid, minus, plus, -⟩ := hexDigit_plain (numerals first (by simp [shape]))
  have skipped : (blanks ++ (digits ++ rest)).dropWhile isSpace = first :: (others ++ rest) := by
    rw [List.dropWhile_append_of_pos spaces, shape, List.cons_append,
      List.dropWhile_cons_of_neg (by simp [solid])]
  have next : ∀ byte ∈ (others ++ rest).head?, byte ≠ 120 ∧ byte ≠ 88 := by
    intro byte front
    cases others with
    | nil => exact (space_plain (ends byte front)).2
    | cons other others =>
      obtain rfl := Option.some.inj front
      exact (hexDigit_plain (numerals other (by simp [shape]))).2.2.2
  have taken : (digits ++ rest).takeWhile isHexDigit = digits := by
    rw [List.takeWhile_append_of_pos numerals]
    cases rest with
    | nil => simp
    | cons byte rest => simp [(space_plain (ends byte rfl)).1]
  have dropped : (digits ++ rest).dropWhile isHexDigit = rest := by
    rw [List.dropWhile_append_of_pos numerals]
    cases rest with
    | nil => simp
    | cons byte rest => simp [(space_plain (ends byte rfl)).1]
  have whole : first :: (others ++ rest) = digits ++ rest := by rw [shape, List.cons_append]
  rw [scanHex, skipped, scanSign_plain minus plus]
  dsimp only
  rw [hexBody_plain next, whole, taken, dropped, if_neg (by simp [filled])]

/-! ## Conversions -/

/-- A conversion of a format. -/
inductive Conversion
  /-- `%15s`: a word of at most that many bytes. -/
  | word (width : Nat)
  /-- `%llu` and `%lu`: a decimal number. -/
  | number
  /-- `%lx`: a hexadecimal number. -/
  | hex
  /-- `%*u` and `%*d`: a decimal number that is not stored. -/
  | skipNumber
  /-- `%*x`: a hexadecimal number that is not stored. -/
  | skipHex

/-- What a conversion stores. -/
inductive Stored
  /-- A word. -/
  | word (text : CString)
  /-- A number of 64 bits. -/
  | number (value : Nat)
  deriving DecidableEq

/-- A magnitude and a sign as an unsigned number of 64 bits. -/
def unsigned64 (negative : Bool) (value : Nat) : Nat :=
  if 2 ^ 64 ≤ value then 2 ^ 64 - 1
  else if negative then (2 ^ 64 - value) % 2 ^ 64 else value

/-- A number that is stored. -/
def storeNumber (scanned : Option (Bool × Nat × CString)) : Option (List Stored × CString) :=
  scanned.map fun found => ([.number (unsigned64 found.1 found.2.1)], found.2.2)

/-- A number that is not stored. -/
def skipNumber (scanned : Option (Bool × Nat × CString)) : Option (List Stored × CString) :=
  scanned.map fun found => ([], found.2.2)

/-- The word at the front of a text, behind blanks. -/
def scanWord (width : Nat) (text : CString) : Option (List Stored × CString) :=
  let start := text.dropWhile isSpace
  let word := (start.takeWhile fun byte => !isSpace byte).take width
  if word.isEmpty then none else some ([.word word], start.drop word.length)

/-- One conversion: what it stores, and the text behind it. -/
def Conversion.scan (text : CString) : Conversion → Option (List Stored × CString)
  | word width => scanWord width text
  | number => storeNumber (scanNumber text)
  | hex => storeNumber (scanHex text)
  | skipNumber => Bytes.skipNumber (scanNumber text)
  | skipHex => Bytes.skipNumber (scanHex text)

/-- `sscanf`: what the conversions up to the first that fails have stored. -/
def sscanf : List Conversion → CString → List Stored
  | [], _ => []
  | conversion :: others, text =>
    match conversion.scan text with
    | none => []
    | some (stored, rest) => stored ++ sscanf others rest

/-- A conversion that goes well is followed by the others. -/
theorem sscanf_cons {conversion : Conversion} {others : List Conversion} {text rest : CString}
    {stored : List Stored} (scanned : conversion.scan text = some (stored, rest)) :
    sscanf (conversion :: others) text = stored ++ sscanf others rest := by
  rw [sscanf, scanned]

/-- Blanks in front of a number mean nothing. -/
theorem scanNumber_blanks {blanks : CString} (spaces : ∀ byte ∈ blanks, isSpace byte = true)
    (text : CString) : scanNumber (blanks ++ text) = scanNumber text := by
  rw [scanNumber, scanNumber, List.dropWhile_append_of_pos spaces]

/-- A printed number of 64 bits behind blanks is stored as it is. -/
theorem scan_number {blanks rest : CString} {value : Nat}
    (spaces : ∀ byte ∈ blanks, isSpace byte = true) (bound : value < 2 ^ 64)
    (ends : ∀ byte ∈ rest.head?, isDigit byte = false) :
    Conversion.number.scan (blanks ++ (decimal value ++ rest)) =
      some ([.number value], rest) := by
  have whole : unsigned64 false value = value := by
    rw [unsigned64, if_neg (Nat.not_le.mpr bound), if_neg Bool.false_ne_true]
  show storeNumber (scanNumber _) = _
  rw [scanNumber_blanks spaces, scanNumber_decimal value rest ends, storeNumber, Option.map_some,
    whole]

/-- A printed number behind blanks is passed over. -/
theorem scan_skipNumber {blanks rest : CString} {value : Nat}
    (spaces : ∀ byte ∈ blanks, isSpace byte = true)
    (ends : ∀ byte ∈ rest.head?, isDigit byte = false) :
    Conversion.skipNumber.scan (blanks ++ (decimal value ++ rest)) = some ([], rest) := by
  show skipNumber (scanNumber _) = _
  rw [scanNumber_blanks spaces, scanNumber_decimal value rest ends, skipNumber, Option.map_some]

/-- A signed number behind blanks is passed over. -/
theorem scan_skipSigned {blanks rest : CString} {value : Int}
    (spaces : ∀ byte ∈ blanks, isSpace byte = true)
    (ends : ∀ byte ∈ rest.head?, isDigit byte = false) :
    Conversion.skipNumber.scan (blanks ++ (signedDecimal value ++ rest)) = some ([], rest) := by
  show skipNumber (scanNumber _) = _
  rw [scanNumber_blanks spaces, scanNumber_signed value ends, skipNumber, Option.map_some]

/-- A signed number behind blanks is stored as an unsigned one. -/
theorem scan_signed {blanks rest : CString} {value : Int}
    (spaces : ∀ byte ∈ blanks, isSpace byte = true)
    (ends : ∀ byte ∈ rest.head?, isDigit byte = false) :
    Conversion.number.scan (blanks ++ (signedDecimal value ++ rest)) =
      some ([.number (unsigned64 (decide (value < 0)) value.natAbs)], rest) := by
  show storeNumber (scanNumber _) = _
  rw [scanNumber_blanks spaces, scanNumber_signed value ends, storeNumber, Option.map_some]

/-- Hexadecimal digits behind blanks are stored as their number. -/
theorem scan_hex {blanks digits rest : CString}
    (spaces : ∀ byte ∈ blanks, isSpace byte = true) (filled : digits ≠ [])
    (numerals : ∀ byte ∈ digits, isHexDigit byte = true)
    (bound : hexDigitsValue digits < 2 ^ 64) (ends : ∀ byte ∈ rest.head?, isSpace byte = true) :
    Conversion.hex.scan (blanks ++ (digits ++ rest)) =
      some ([.number (hexDigitsValue digits)], rest) := by
  have whole : unsigned64 false (hexDigitsValue digits) = hexDigitsValue digits := by
    rw [unsigned64, if_neg (Nat.not_le.mpr bound), if_neg Bool.false_ne_true]
  show storeNumber (scanHex _) = _
  rw [scanHex_digits spaces filled numerals ends, storeNumber, Option.map_some, whole]

/-- Hexadecimal digits behind blanks are passed over. -/
theorem scan_skipHex {blanks digits rest : CString}
    (spaces : ∀ byte ∈ blanks, isSpace byte = true) (filled : digits ≠ [])
    (numerals : ∀ byte ∈ digits, isHexDigit byte = true)
    (ends : ∀ byte ∈ rest.head?, isSpace byte = true) :
    Conversion.skipHex.scan (blanks ++ (digits ++ rest)) = some ([], rest) := by
  show skipNumber (scanHex _) = _
  rw [scanHex_digits spaces filled numerals ends, skipNumber, Option.map_some]

/-- A word in front of a blank is stored whole when it fits. -/
theorem scan_word {word rest : CString} {width : Nat} (filled : word ≠ [])
    (solid : ∀ byte ∈ word, isSpace byte = false) (fits : word.length ≤ width)
    (ends : ∀ byte ∈ rest.head?, isSpace byte = true) :
    (Conversion.word width).scan (word ++ rest) = some ([.word word], rest) := by
  obtain ⟨first, others, shape⟩ := List.exists_cons_of_ne_nil filled
  have start : (word ++ rest).dropWhile isSpace = word ++ rest := by
    rw [shape, List.cons_append, List.dropWhile_cons_of_neg]
    simp [solid first (by simp [shape])]
  have taken : (word ++ rest).takeWhile (fun byte => !isSpace byte) = word := by
    rw [List.takeWhile_append_of_pos (fun byte found => by simp [solid byte found])]
    cases rest with
    | nil => simp
    | cons byte rest => simp [ends byte rfl]
  show scanWord width (word ++ rest) = _
  rw [scanWord, start, taken, List.take_of_length_le fits, if_neg (by simp [filled]),
    List.drop_left]

end HwrunOs.Bytes
