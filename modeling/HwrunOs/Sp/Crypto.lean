import HwrunOs.Library.Cbc
import HwrunOs.Sp.Util

/-!
# Authenticated encryption of the security plugin

`sp_crypto.c` encrypts with AES-256-CBC and authenticates `aad || iv || ciphertext` with an
HMAC. The `openssl` program it calls is a parameter; its tags are an abstract type, so that the
HMAC can be taken as injective.
-/

namespace HwrunOs.Sp

open HwrunOs.Cbc

/-! ## Results -/

/-- The result of a call that may copy past the end of a buffer. -/
inductive Outcome (α : Type) where
  /-- `SP_OK` with the output. -/
  | ok (value : α)
  /-- An error code. -/
  | error (code : Int)
  /-- A copy past the end of a buffer. -/
  | overflow
  deriving DecidableEq

/-! ## Data -/

/-- The commands of `openssl` that the plugin runs. -/
structure Openssl (Tag : Type) where
  /-- `openssl dgst -sha256`. -/
  sha256 : List UInt8 → List UInt8
  /-- `openssl dgst -sha256 -mac HMAC` under a key. -/
  hmac : List UInt8 → List UInt8 → Tag
  /-- The block cipher of `openssl enc -aes-256-cbc` under a key. -/
  aes : List UInt8 → BlockCipher 16

/-- An input buffer, with a `uint32_t` for its length. -/
abbrev Buffer := { bytes : List UInt8 // bytes.length < 2 ^ 32 }

/-- An initial block. -/
abbrev Iv := { bytes : List UInt8 // bytes.length = 16 }

/-- The bytes of an input that may be a null pointer. -/
def bytesOf (buffer : Option Buffer) : List UInt8 := (buffer.map Subtype.val).getD []

/-- The bytes of an input that is there. -/
@[simp] theorem bytesOf_some (buffer : Buffer) : bytesOf (some buffer) = buffer.val := rfl

/-- The authenticated bytes. -/
def macData (aad iv ct : List UInt8) : List UInt8 := aad ++ iv ++ ct

section Commands

variable {Tag : Type} (crypto : Openssl Tag)

/-- `sp_derive_sub`, for keys that fit its buffer. -/
def deriveSub (key : List UInt8) (tag : UInt8) : List UInt8 := crypto.sha256 (key ++ [tag])

/-! ## Encryption -/

/-- `sp_encrypt` with checked arguments. The size of the authenticated bytes is computed with
the first two terms in 32 bits. -/
def sealWith (key iv aad pt : List UInt8) (ctCap tagCap : UInt32) :
    Outcome (List UInt8 × Tag) :=
  let ct := cbcSeal (crypto.aes (deriveSub crypto key 0)) iv pt
  let macDataLen := (UInt32.ofNat aad.length + 16).toNat + ct.length
  if ct = [] ∨ ctCap < UInt32.ofNat ct.length then .error enomem
  else if ctCap.toNat < ct.length then .overflow
  else if 0x100000 < macDataLen then .error enomem
  else if macDataLen < (macData aad iv ct).length then .overflow
  else if tagCap < 32 then .error enomem
  else .ok (ct, crypto.hmac (deriveSub crypto key 1) (macData aad iv ct))

/-- `sp_encrypt`; `random` is what `sp_random` returns where no IV is given, and an output that
is a null pointer has no capacity. -/
def spEncrypt (key iv aad pt : Option Buffer) (ctCap tagCap : Option UInt32)
    (random : Iv) : Outcome (List UInt8 × Tag) :=
  match key, pt, ctCap, tagCap with
  | some key, some pt, some ctCap, some tagCap =>
    if key.val = [] ∨ pt.val = [] then .error einval
    else if 2000 < key.val.length then .error eio
    else match iv with
      | some iv =>
        if iv.val.length ≠ 16 then .error einval
        else sealWith crypto key.val iv.val (bytesOf aad) pt.val ctCap tagCap
      | none => sealWith crypto key.val random.val (bytesOf aad) pt.val ctCap tagCap
  | _, _, _, _ => .error einval

/-! ## Decryption -/

variable [DecidableEq Tag]

/-- `sp_decrypt` with checked arguments. The size of the authenticated bytes is computed in 32
bits. -/
def openWith (key iv aad ct : List UInt8) (tag : Tag) (tagLen ptCap : UInt32) :
    Outcome (List UInt8) :=
  let macDataLen := (UInt32.ofNat aad.length + 16 + UInt32.ofNat ct.length).toNat
  if 0x100000 < macDataLen then .error enomem
  else if macDataLen < (macData aad iv ct).length then .overflow
  else if tagLen < 32 then .error eauth
  else if crypto.hmac (deriveSub crypto key 1) (macData aad iv ct) ≠ tag then .error eauth
  else match cbcOpen (crypto.aes (deriveSub crypto key 0)) iv ct with
    | none => .error eio
    | some pt => if ptCap < UInt32.ofNat pt.length then .error enomem else .ok pt

/-- `sp_decrypt`. -/
def spDecrypt (key iv aad ct : Option Buffer) (tag : Option Tag) (tagLen : UInt32)
    (ptCap : Option UInt32) : Outcome (List UInt8) :=
  match key, ct, tag, ptCap with
  | some key, some ct, some tag, some ptCap =>
    if key.val = [] ∨ ct.val = [] ∨ tagLen = 0 then .error einval
    else match iv with
      | none => .error einval
      | some iv =>
        if iv.val.length ≠ 16 then .error einval
        else if 2000 < key.val.length then .error eio
        else openWith crypto key.val iv.val (bytesOf aad) ct.val tag tagLen ptCap
  | _, _, _, _ => .error einval

end Commands

end HwrunOs.Sp
