import HwrunOs.Library.Scanf
import HwrunOs.Sp.Util
import Mathlib.Data.List.Induction
import Mathlib.Logic.Function.Basic

/-!
# Hexadecimal text

`sp_to_hex` and `sp_from_hex` undo each other: bytes come back from their text, and text that is
accepted comes back from its bytes in lower case. What is not pairs of digits, or does not fit the
buffer, is refused.
-/

namespace HwrunOs.Sp

open HwrunOs.Bytes

/-! ## Bytes and their text -/

/-- The digits of a byte denote the byte. -/
theorem hexValue_byte (byte : UInt8) :
    hexValue (hexDigit (byte >>> 4)) = some (byte >>> 4) ∧
      hexValue (hexDigit (byte &&& 15)) = some (byte &&& 15) ∧
      (byte >>> 4) <<< 4 ||| (byte &&& 15) = byte := by
  have all : ∀ number : Fin 256,
      hexValue (hexDigit (UInt8.ofNat number >>> 4)) = some (UInt8.ofNat number >>> 4) ∧
        hexValue (hexDigit (UInt8.ofNat number &&& 15)) = some (UInt8.ofNat number &&& 15) ∧
        (UInt8.ofNat number >>> 4) <<< 4 ||| (UInt8.ofNat number &&& 15) = UInt8.ofNat number := by
    decide +kernel
  have named := all ⟨byte.toNat, byte.toNat_lt⟩
  rwa [UInt8.ofNat_toNat] at named

/-- Hexadecimal text is read back. -/
theorem fromHexPairs_toHex (bytes : List UInt8) : fromHexPairs (toHex bytes) = some bytes := by
  induction bytes with
  | nil => rfl
  | cons byte rest ih =>
    obtain ⟨high, low, whole⟩ := hexValue_byte byte
    show (do
      let first ← hexValue (hexDigit (byte >>> 4))
      let second ← hexValue (hexDigit (byte &&& 15))
      let bytes ← fromHexPairs (toHex rest)
      return (first <<< 4 ||| second) :: bytes) = some (byte :: rest)
    rw [high, low, ih]
    show some (((byte >>> 4) <<< 4 ||| (byte &&& 15)) :: rest) = _
    rw [whole]

/-- Hexadecimal text has two digits a byte. -/
theorem toHex_length (bytes : List UInt8) : (toHex bytes).length = 2 * bytes.length := by
  induction bytes with
  | nil => rfl
  | cons byte rest ih =>
    show (toHex rest).length + 1 + 1 = 2 * (rest.length + 1)
    omega

/-- Different bytes have different hexadecimal text. -/
theorem toHex_injective : Function.Injective toHex := by
  intro first second same
  have read := fromHexPairs_toHex first
  rw [same, fromHexPairs_toHex] at read
  exact (Option.some.inj read).symm

/-- Hexadecimal text of bytes that fit the buffer is read back. -/
theorem fromHex_toHex {cap : Nat} {bytes : List UInt8} (room : bytes.length ≤ cap) :
    fromHex (toHex bytes) cap = .ok bytes := by
  have length := toHex_length bytes
  rw [fromHex, if_neg (by omega), if_neg (by omega), fromHexPairs_toHex]

/-- Hexadecimal text that fits a field is copied whole. -/
theorem copy_toHex {size : Nat} {bytes : List UInt8} (fits : 2 * bytes.length < size + 1) :
    (Field.copy (toHex bytes) : Bytes.Field (size + 1)).val = toHex bytes := by
  have length := toHex_length bytes
  exact snprintf_eq (by omega)

/-! ## Text and its bytes -/

/-- `tolower` in the C locale. -/
def lowerCase (byte : UInt8) : UInt8 := if 65 ≤ byte ∧ byte ≤ 90 then byte + 32 else byte

/-- The digits are those that have a value. -/
theorem hexValue_isSome (byte : UInt8) : (hexValue byte).isSome = isHexDigit byte := by
  rw [hexValue, isHexDigit, isDigit]
  grind

/-- The value of a digit has four bits, and is written as the digit in lower case. -/
theorem hexDigit_value {digit value : UInt8} (known : hexValue digit = some value) :
    value.toNat < 16 ∧ hexDigit value = lowerCase digit := by
  have all : ∀ number : Fin 256, (hexValue (UInt8.ofFin number)).all (fun value =>
      decide (value.toNat < 16) && hexDigit value == lowerCase (UInt8.ofFin number)) = true := by
    decide +kernel
  have here := all digit.toFin
  rw [show UInt8.ofFin digit.toFin = digit from rfl, known, Option.all_some, Bool.and_eq_true,
    decide_eq_true_iff, beq_iff_eq] at here
  exact here

/-- The halves of a byte are the values that it is put together from. -/
theorem nibbles_joined {high low : UInt8} (highSmall : high.toNat < 16)
    (lowSmall : low.toNat < 16) :
    (high <<< 4 ||| low) >>> 4 = high ∧ (high <<< 4 ||| low) &&& 15 = low := by
  have joined : (high <<< 4 ||| low).toNat = high.toNat * 16 + low.toNat := by
    have shifted : (high.toNat <<< 4) % 2 ^ 8 = high.toNat <<< 4 := by
      rw [Nat.shiftLeft_eq]
      omega
    rw [UInt8.toNat_or, UInt8.toNat_shiftLeft]
    show (high.toNat <<< 4) % 2 ^ 8 ||| low.toNat = _
    rw [shifted, ← Nat.shiftLeft_add_eq_or_of_lt lowSmall, Nat.shiftLeft_eq]
  constructor
  · rw [← UInt8.toNat_inj, UInt8.toNat_shiftRight, joined]
    show (high.toNat * 16 + low.toNat) >>> 4 = _
    rw [Nat.shiftRight_eq_div_pow]
    omega
  · rw [← UInt8.toNat_inj, UInt8.toNat_and, joined]
    show (high.toNat * 16 + low.toNat) &&& 2 ^ 4 - 1 = _
    rw [Nat.and_two_pow_sub_one_eq_mod]
    omega

/-- The bytes of a pair of digits and of the pairs behind it. -/
theorem fromHexPairs_cons (high low : UInt8) (rest : CString) :
    fromHexPairs (high :: low :: rest) =
      (hexValue high).bind fun first => (hexValue low).bind fun second =>
        (fromHexPairs rest).map ((first <<< 4 ||| second) :: ·) := by
  rw [fromHexPairs]
  cases fromHexPairs rest <;> rfl

/-- Pairs are read when all of them are digits. -/
theorem fromHexPairs_isSome {hex : CString} (pairs : hex.length % 2 = 0) :
    (fromHexPairs hex).isSome = hex.all isHexDigit := by
  induction hex using List.twoStepInduction with
  | nil => rfl
  | singleton digit => cases pairs
  | cons_cons high low rest ih _ =>
    have fewer : rest.length % 2 = 0 := by
      rw [List.length_cons, List.length_cons] at pairs
      omega
    rw [fromHexPairs_cons, List.all_cons, List.all_cons, ← ih fewer, ← hexValue_isSome,
      ← hexValue_isSome]
    cases hexValue high with
    | none => rfl
    | some first =>
      cases hexValue low with
      | none => rfl
      | some second => cases fromHexPairs rest <;> rfl

/-- The text of bytes that were read is what they were read from, in lower case. -/
theorem toHex_fromHexPairs {hex : CString} {bytes : List UInt8} (pairs : hex.length % 2 = 0)
    (read : fromHexPairs hex = some bytes) : toHex bytes = hex.map lowerCase := by
  induction hex using List.twoStepInduction generalizing bytes with
  | nil =>
    obtain rfl := Option.some.inj read
    rfl
  | singleton digit => cases pairs
  | cons_cons high low rest ih _ =>
    have fewer : rest.length % 2 = 0 := by
      rw [List.length_cons, List.length_cons] at pairs
      omega
    rw [fromHexPairs_cons] at read
    obtain ⟨first, highValue, read⟩ := Option.bind_eq_some_iff.mp read
    obtain ⟨second, lowValue, read⟩ := Option.bind_eq_some_iff.mp read
    obtain ⟨others, later, rfl⟩ := Option.map_eq_some_iff.mp read
    obtain ⟨highSmall, highDigit⟩ := hexDigit_value highValue
    obtain ⟨lowSmall, lowDigit⟩ := hexDigit_value lowValue
    obtain ⟨front, back⟩ := nibbles_joined highSmall lowSmall
    show hexDigit ((first <<< 4 ||| second) >>> 4) :: hexDigit ((first <<< 4 ||| second) &&& 15) ::
      toHex others = _
    rw [front, back, highDigit, lowDigit, ih fewer later, List.map_cons, List.map_cons]

/-! ## Exactness -/

/-- A text has two digits for each of the bytes whose text it is in lower case. -/
theorem length_of_lowerCase {bytes : List UInt8} {hex : CString}
    (text : toHex bytes = hex.map lowerCase) : hex.length = 2 * bytes.length := by
  have lengths := congrArg List.length text
  rw [toHex_length, List.length_map] at lengths
  exact lengths.symm

/-- What `sp_from_hex` accepts: digits, as many pairs as the buffer has room for. -/
theorem fromHex_eq_ok_iff {hex : CString} {cap : Nat} {bytes : List UInt8} :
    fromHex hex cap = .ok bytes ↔ bytes.length ≤ cap ∧
      (∀ digit ∈ hex, isHexDigit digit = true) ∧ toHex bytes = hex.map lowerCase := by
  constructor
  · intro accepted
    rw [fromHex] at accepted
    split at accepted
    · cases accepted
    · rename_i odd
      have pairs := not_not.mp odd
      split at accepted
      · cases accepted
      · rename_i fits
        split at accepted
        · cases accepted
        · rename_i read
          obtain rfl := Except.ok.inj accepted
          have text := toHex_fromHexPairs pairs read
          have digits := fromHexPairs_isSome pairs
          rw [read] at digits
          have lengths := length_of_lowerCase text
          exact ⟨by omega, List.all_eq_true.mp digits.symm, text⟩
  · rintro ⟨room, digits, text⟩
    have lengths := length_of_lowerCase text
    have pairs : hex.length % 2 = 0 := by omega
    have some_ := fromHexPairs_isSome pairs
    rw [List.all_eq_true.mpr digits] at some_
    obtain ⟨others, read⟩ := Option.isSome_iff_exists.mp some_
    have same : others = bytes :=
      toHex_injective ((toHex_fromHexPairs pairs read).trans text.symm)
    rw [fromHex, if_neg (not_not_intro pairs), if_neg (by omega), read, same]

/-- What `sp_from_hex` refuses: a digit too many, another byte, or more than fits the buffer. -/
theorem fromHex_eq_error_iff {hex : CString} {cap : Nat} :
    (∃ code, code ≠ spOk ∧ fromHex hex cap = .error code) ↔
      hex.length % 2 = 1 ∨ (∃ digit ∈ hex, isHexDigit digit = false) ∨ 2 * cap < hex.length := by
  have invalid : einval ≠ spOk := by decide
  have full : enomem ≠ spOk := by decide
  rw [fromHex]
  by_cases pairs : hex.length % 2 = 0
  · have digits := fromHexPairs_isSome pairs
    have even : ¬ hex.length % 2 = 1 := by omega
    rw [if_neg (not_not_intro pairs)]
    by_cases long : cap < hex.length / 2
    · have more : 2 * cap < hex.length := by omega
      rw [if_pos long]
      exact ⟨fun _ => .inr (.inr more), fun _ => ⟨enomem, full, rfl⟩⟩
    · have fits : ¬ 2 * cap < hex.length := by omega
      rw [if_neg long]
      cases read : fromHexPairs hex with
      | none =>
        rw [read, Option.isSome_none, eq_comm, List.all_eq_false] at digits
        obtain ⟨digit, found, other⟩ := digits
        exact ⟨fun _ => .inr (.inl ⟨digit, found, by simpa using other⟩),
          fun _ => ⟨einval, invalid, rfl⟩⟩
      | some bytes =>
        rw [read, Option.isSome_some, eq_comm, List.all_eq_true] at digits
        constructor
        · rintro ⟨code, -, failed⟩
          cases failed
        · rintro (odd | ⟨digit, found, other⟩ | more)
          · exact absurd odd even
          · rw [digits digit found] at other
            cases other
          · exact absurd more fits
  · have odd : hex.length % 2 = 1 := by omega
    rw [if_pos pairs]
    exact ⟨fun _ => .inl odd, fun _ => ⟨einval, invalid, rfl⟩⟩

/-- Bytes are read back from their text where the buffer has room for them; what is accepted is the
text of the bytes that are read, apart from capital letters; and everything else is refused. -/
theorem hexText_exact (bytes : List UInt8) (hex : CString) (cap : Nat) :
    (fromHex (toHex bytes) cap = if bytes.length ≤ cap then .ok bytes else .error enomem) ∧
      (fromHex hex cap = .ok bytes ↔ hex.length = 2 * bytes.length ∧ bytes.length ≤ cap ∧
        (∀ digit ∈ hex, isHexDigit digit = true) ∧ toHex bytes = hex.map lowerCase) ∧
      ((∃ code, code ≠ spOk ∧ fromHex hex cap = .error code) ↔
        hex.length % 2 = 1 ∨ (∃ digit ∈ hex, isHexDigit digit = false) ∨
          2 * cap < hex.length) := by
  refine ⟨?_, ?_, fromHex_eq_error_iff⟩
  · split
    · rename_i room
      exact fromHex_toHex room
    · rename_i full
      have lengths := toHex_length bytes
      rw [fromHex, if_neg (by omega), if_pos (by omega)]
  · rw [fromHex_eq_ok_iff]
    constructor
    · intro accepted
      exact ⟨length_of_lowerCase accepted.2.2, accepted⟩
    · intro accepted
      exact accepted.2

/-- A digest in capital letters. -/
example : fromHex (lit "00FFa5") 3 = .ok [0, 255, 165] ∧ toHex [0, 255, 165] = lit "00ffa5" :=
  ⟨rfl, rfl⟩

end HwrunOs.Sp
