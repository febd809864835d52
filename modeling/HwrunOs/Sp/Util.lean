import HwrunOs.Library.Bytes

/-!
# Result codes and conversions of the security plugin

The result codes of `sp.h` and the hexadecimal conversions and comparison of `sp_util.c`.
-/

namespace HwrunOs.Sp

open HwrunOs.Bytes

/-! ## Result codes -/

/-- `SP_OK`. -/
def spOk : Int := 0
/-- `SP_EBADCRED`. -/
def ebadcred : Int := -1
/-- `SP_ENOTFOUND`. -/
def enotfound : Int := -2
/-- `SP_ENOMEM`. -/
def enomem : Int := -3
/-- `SP_EEXIST`. -/
def eexist : Int := -4
/-- `SP_EINVAL`. -/
def einval : Int := -5
/-- `SP_EACCES`. -/
def eacces : Int := -7
/-- `SP_EAUTH`. -/
def eauth : Int := -8
/-- `SP_EIO`. -/
def eio : Int := -9

/-! ## Hexadecimal text -/

/-- `sp_to_hex`. -/
def toHex (bytes : List UInt8) : CString :=
  bytes.flatMap fun (byte : UInt8) => [hexDigit (byte >>> 4), hexDigit (byte &&& 15)]

/-- The value of a hexadecimal digit, in either case. -/
def hexValue (digit : UInt8) : Option UInt8 :=
  if 48 ≤ digit ∧ digit ≤ 57 then some (digit - 48)
  else if 97 ≤ digit ∧ digit ≤ 102 then some (digit - 97 + 10)
  else if 65 ≤ digit ∧ digit ≤ 70 then some (digit - 65 + 10)
  else none

/-- The bytes that pairs of hexadecimal digits denote. -/
def fromHexPairs : CString → Option (List UInt8)
  | high :: low :: rest => do
    let first ← hexValue high
    let second ← hexValue low
    let bytes ← fromHexPairs rest
    return (first <<< 4 ||| second) :: bytes
  | _ => some []

/-- `sp_from_hex` into a buffer of some capacity. -/
def fromHex (hex : CString) (cap : Nat) : Except Int (List UInt8) :=
  if hex.length % 2 ≠ 0 then .error einval
  else if cap < hex.length / 2 then .error enomem
  else match fromHexPairs hex with
    | none => .error einval
    | some bytes => .ok bytes

/-! ## Comparison -/

/-- `sp_ct_eq` over the first bytes of two buffers; zero for the same bytes. -/
def ctEq (first second : List UInt8) (count : Nat) : Int :=
  if (List.zipWith (· ^^^ ·) (first.take count) (second.take count)).foldl (· ||| ·) 0 = 0 then 0
  else 1

end HwrunOs.Sp
