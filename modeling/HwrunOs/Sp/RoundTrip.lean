import HwrunOs.Sp.Authenticated

/-!
# From encryption to decryption

`sp_encrypt` and `sp_decrypt` check sizes, derive the keys and put the authenticated bytes
together each on their own. Within the limits of the one the other gives the plaintext back, and
with another tag it stops before the cipher is run.
-/

namespace HwrunOs.Sp

open HwrunOs.Cbc

/-! ## Limits -/

/-- The bytes of the ciphertext of a text. -/
def sealedSize (pt : List UInt8) : Nat := (pt.length / 16 + 1) * 16

/-- The limits of `sp_encrypt`, with an initial block that the caller gives. -/
structure SealLimits (key iv : Buffer) (aad : Option Buffer) (pt : Buffer)
    (ctCap tagCap : UInt32) : Prop where
  /-- There is a key. -/
  keyed : key.val ≠ []
  /-- The key fits the buffer of the derivation. -/
  keyShort : key.val.length ≤ 2000
  /-- The initial block is one. -/
  block : iv.val.length = 16
  /-- There is a text. -/
  filled : pt.val ≠ []
  /-- The authenticated bytes are at most a megabyte. -/
  small : (bytesOf aad).length + 16 + sealedSize pt.val ≤ 0x100000
  /-- The ciphertext fits. -/
  ctRoom : sealedSize pt.val ≤ ctCap.toNat
  /-- The tag fits. -/
  tagRoom : 32 ≤ tagCap

/-- The limits of `sp_decrypt` up to the comparison of the tags. -/
structure OpenLimits (key iv : Buffer) (aad : Option Buffer) (ct : Buffer)
    (tagLen : UInt32) : Prop where
  /-- There is a key. -/
  keyed : key.val ≠ []
  /-- The key fits the buffer of the derivation. -/
  keyShort : key.val.length ≤ 2000
  /-- The initial block is one. -/
  block : iv.val.length = 16
  /-- There is a ciphertext. -/
  filled : ct.val ≠ []
  /-- The authenticated bytes are at most a megabyte. -/
  small : (bytesOf aad).length + 16 + ct.val.length ≤ 0x100000
  /-- There is a tag. -/
  tagged : tagLen ≠ 0

/-- What a decryption does outside its own variables. -/
inductive CryptoEffect where
  /-- `openssl dgst` authenticates bytes. -/
  | mac (data : List UInt8)
  /-- `openssl enc -d` writes the plaintext of bytes to a file. -/
  | decipher (ct : List UInt8)
  /-- Bytes are read into the buffer of the caller. -/
  | output (pt : List UInt8)
  deriving DecidableEq

section Commands

variable {Tag : Type} (crypto : Openssl Tag)

/-! ## Encryption -/

/-- `sp_encrypt` with checked arguments succeeds where the ciphertext and the tag fit and the
authenticated bytes are within the limit. -/
theorem sealWith_ok_iff {key iv aad pt : List UInt8} {ctCap tagCap : UInt32}
    (block : iv.length = 16) :
    (∃ ct tag, sealWith crypto key iv aad pt ctCap tagCap = .ok (ct, tag)) ↔
      aad.length + 16 + sealedSize pt ≤ 0x100000 ∧ sealedSize pt ≤ ctCap.toNat ∧
        32 ≤ tagCap := by
  have size : (cbcSeal (crypto.aes (deriveSub crypto key 0)) iv pt).length = sealedSize pt :=
    cbcSeal_length (by decide) block pt
  unfold sealWith
  generalize cbcSeal (crypto.aes (deriveSub crypto key 0)) iv pt = ct at size
  have positive : 0 < sealedSize pt := by
    unfold sealedSize
    omega
  have filled : ct ≠ [] := by
    rintro rfl
    rw [List.length_nil] at size
    omega
  have total : (macData aad iv ct).length = aad.length + 16 + sealedSize pt := by
    rw [macData, List.length_append, List.length_append, block, size]
  have first : (UInt32.ofNat aad.length + 16).toNat = (aad.length + 16) % 2 ^ 32 := by
    simp only [UInt32.toNat_add, UInt32.toNat_ofNat', UInt32.reduceToNat]
    omega
  have narrow : ctCap < UInt32.ofNat (sealedSize pt) ↔
      ctCap.toNat < sealedSize pt % 2 ^ 32 := by
    rw [UInt32.lt_iff_toNat_lt, UInt32.toNat_ofNat']
  have whole := Nat.mod_le (sealedSize pt) (2 ^ 32)
  dsimp only
  simp only [total, first, size, narrow]
  constructor
  · rintro ⟨text, tag, done⟩
    split at done
    · cases done
    split at done
    · cases done
    rename_i room
    split at done
    · cases done
    rename_i limit
    split at done
    · cases done
    rename_i inside
    split at done
    · cases done
    rename_i tagRoom
    exact ⟨by omega, by omega, UInt32.not_lt.mp tagRoom⟩
  · rintro ⟨small, room, tagRoom⟩
    have unwrapped : (aad.length + 16) % 2 ^ 32 = aad.length + 16 := Nat.mod_eq_of_lt (by omega)
    have fits : ¬ (ct = [] ∨ ctCap.toNat < sealedSize pt % 2 ^ 32) := by
      rw [not_or]
      exact ⟨filled, by omega⟩
    rw [unwrapped, if_neg fits, if_neg (by omega), if_neg (by omega), if_neg (by omega),
      if_neg (UInt32.not_lt.mpr tagRoom)]
    exact ⟨_, _, rfl⟩

/-- `sp_encrypt` with an initial block succeeds exactly within its limits. -/
theorem spEncrypt_ok_iff (key iv : Buffer) (aad : Option Buffer) (pt : Buffer)
    (ctCap tagCap : UInt32) (random : Iv) :
    (∃ ct tag, spEncrypt crypto (some key) (some iv) aad (some pt) (some ctCap) (some tagCap)
      random = .ok (ct, tag)) ↔ SealLimits key iv aad pt ctCap tagCap := by
  unfold spEncrypt
  dsimp only
  constructor
  · rintro ⟨ct, tag, done⟩
    split at done
    · cases done
    rename_i there
    split at done
    · cases done
    rename_i short
    split at done
    · cases done
    rename_i block
    rw [not_or] at there
    have block := not_not.mp block
    obtain ⟨small, ctRoom, tagRoom⟩ := (sealWith_ok_iff crypto block).mp ⟨ct, tag, done⟩
    exact ⟨there.1, Nat.not_lt.mp short, block, there.2, small, ctRoom, tagRoom⟩
  · intro limits
    have there : ¬ (key.val = [] ∨ pt.val = []) := not_or.mpr ⟨limits.keyed, limits.filled⟩
    rw [if_neg there, if_neg (Nat.not_lt.mpr limits.keyShort),
      if_neg (not_not.mpr limits.block)]
    exact (sealWith_ok_iff crypto limits.block).mpr ⟨limits.small, limits.ctRoom, limits.tagRoom⟩

variable [DecidableEq Tag]

/-- Within the limits of the encryption the decryption gives the plaintext back. -/
theorem decrypt_of_limits {key iv pt : Buffer} {aad : Option Buffer} {ctCap tagCap : UInt32}
    (limits : SealLimits key iv aad pt ctCap tagCap) (random : Iv) :
    ∃ (ct : Buffer) (tag : Tag),
      spEncrypt crypto (some key) (some iv) aad (some pt) (some ctCap) (some tagCap) random =
        .ok (ct.val, tag) ∧
      ∀ tagLen ptCap : UInt32, 32 ≤ tagLen → pt.val.length ≤ ptCap.toNat →
        spDecrypt crypto (some key) (some iv) aad (some ct) (some tag) tagLen (some ptCap) =
          .ok pt.val := by
  obtain ⟨ct, tag, done⟩ := (spEncrypt_ok_iff crypto key iv aad pt ctCap tagCap random).mpr limits
  obtain ⟨-, -, _, _, closed⟩ := spEncrypt_ok done
  have small := (sealWith_ok closed).2.2
  have short : ct.length < 2 ^ 32 := by
    rw [macData, List.length_append] at small
    omega
  refine ⟨⟨ct, short⟩, tag, done, ?_⟩
  intro tagLen ptCap long room
  have fits : UInt32.ofNat (bytesOf (some pt)).length ≤ ptCap := by
    rw [UInt32.le_iff_toNat_le]
    exact (UInt32.toNat_ofNat_of_lt' pt.property).trans_le room
  exact spDecrypt_spEncrypt done rfl rfl long fits

/-! ## Decryption step by step -/

/-- `openWith`, with what it does on the way. -/
def openTrace (key iv aad ct : List UInt8) (tag : Tag) (tagLen ptCap : UInt32) :
    List CryptoEffect × Outcome (List UInt8) :=
  let macDataLen := (UInt32.ofNat aad.length + 16 + UInt32.ofNat ct.length).toNat
  if 0x100000 < macDataLen then ([], .error enomem)
  else if macDataLen < (macData aad iv ct).length then ([], .overflow)
  else if tagLen < 32 then ([.mac (macData aad iv ct)], .error eauth)
  else if crypto.hmac (deriveSub crypto key 1) (macData aad iv ct) ≠ tag then
    ([.mac (macData aad iv ct)], .error eauth)
  else match cbcOpen (crypto.aes (deriveSub crypto key 0)) iv ct with
    | none => ([.mac (macData aad iv ct), .decipher ct], .error eio)
    | some pt =>
      if ptCap < UInt32.ofNat pt.length then
        ([.mac (macData aad iv ct), .decipher ct], .error enomem)
      else ([.mac (macData aad iv ct), .decipher ct, .output pt], .ok pt)

/-- `sp_decrypt`, with what it does on the way. -/
def spDecryptTrace (key iv aad ct : Option Buffer) (tag : Option Tag) (tagLen : UInt32)
    (ptCap : Option UInt32) : List CryptoEffect × Outcome (List UInt8) :=
  match key, ct, tag, ptCap with
  | some key, some ct, some tag, some ptCap =>
    if key.val = [] ∨ ct.val = [] ∨ tagLen = 0 then ([], .error einval)
    else match iv with
      | none => ([], .error einval)
      | some iv =>
        if iv.val.length ≠ 16 then ([], .error einval)
        else if 2000 < key.val.length then ([], .error eio)
        else openTrace crypto key.val iv.val (bytesOf aad) ct.val tag tagLen ptCap
  | _, _, _, _ => ([], .error einval)

/-- The steps lead to the result of `openWith`. -/
theorem openTrace_outcome (key iv aad ct : List UInt8) (tag : Tag) (tagLen ptCap : UInt32) :
    (openTrace crypto key iv aad ct tag tagLen ptCap).2 =
      openWith crypto key iv aad ct tag tagLen ptCap := by
  unfold openTrace openWith
  dsimp only
  split
  · rfl
  split
  · rfl
  split
  · rfl
  split
  · rfl
  cases cbcOpen (crypto.aes (deriveSub crypto key 0)) iv ct with
  | none => rfl
  | some pt =>
    dsimp only
    split
    · rfl
    · rfl

/-- The steps lead to the result of `sp_decrypt`. -/
theorem spDecryptTrace_outcome (key iv aad ct : Option Buffer) (tag : Option Tag)
    (tagLen : UInt32) (ptCap : Option UInt32) :
    (spDecryptTrace crypto key iv aad ct tag tagLen ptCap).2 =
      spDecrypt crypto key iv aad ct tag tagLen ptCap := by
  unfold spDecryptTrace spDecrypt
  cases key with
  | none => rfl
  | some key =>
    cases ct with
    | none => rfl
    | some ct =>
      cases tag with
      | none => rfl
      | some tag =>
        cases ptCap with
        | none => rfl
        | some ptCap =>
          dsimp only
          split
          · rfl
          cases iv with
          | none => rfl
          | some iv =>
            dsimp only
            split
            · rfl
            split
            · rfl
            exact openTrace_outcome crypto _ _ _ _ _ _ _

/-- With another tag nothing is done but to authenticate, and the tag is refused. -/
theorem spDecryptTrace_refused {key iv ct : Buffer} {aad : Option Buffer} {tag : Tag}
    {tagLen ptCap : UInt32} (limits : OpenLimits key iv aad ct tagLen)
    (other : tag ≠ crypto.hmac (deriveSub crypto key.val 1)
      (macData (bytesOf aad) iv.val ct.val)) :
    spDecryptTrace crypto (some key) (some iv) aad (some ct) (some tag) tagLen (some ptCap) =
      ([.mac (macData (bytesOf aad) iv.val ct.val)], .error eauth) := by
  have there : ¬ (key.val = [] ∨ ct.val = [] ∨ tagLen = 0) := by
    rw [not_or, not_or]
    exact ⟨limits.keyed, limits.filled, limits.tagged⟩
  have total : (macData (bytesOf aad) iv.val ct.val).length =
      (bytesOf aad).length + 16 + ct.val.length := by
    rw [macData, List.length_append, List.length_append, limits.block]
  have size := macDataLen_eq limits.small
  have within := limits.small
  have differs : ¬ (crypto.hmac (deriveSub crypto key.val 1)
      (macData (bytesOf aad) iv.val ct.val) = tag) := fun same => other same.symm
  unfold spDecryptTrace
  dsimp only
  rw [if_neg there, if_neg (not_not.mpr limits.block), if_neg (Nat.not_lt.mpr limits.keyShort)]
  unfold openTrace
  dsimp only
  rw [size, if_neg (Nat.not_lt.mpr within), total, if_neg (Nat.lt_irrefl _)]
  by_cases short : tagLen < 32
  · rw [if_pos short]
  · rw [if_neg short, if_pos differs]

/-- What is encrypted within the limits, which are exactly those of `sp_encrypt`, is decrypted
again, and a tag other than the recomputed one is refused before the cipher is run. -/
theorem spDecrypt_restores :
    (∀ (key iv : Buffer) (aad : Option Buffer) (pt : Buffer) (ctCap tagCap : UInt32) (random : Iv),
      (∃ ct tag, spEncrypt crypto (some key) (some iv) aad (some pt) (some ctCap) (some tagCap)
        random = .ok (ct, tag)) ↔ SealLimits key iv aad pt ctCap tagCap) ∧
    (∀ (key iv : Buffer) (aad : Option Buffer) (pt : Buffer) (ctCap tagCap : UInt32) (random : Iv),
      SealLimits key iv aad pt ctCap tagCap → ∃ (ct : Buffer) (tag : Tag),
        spEncrypt crypto (some key) (some iv) aad (some pt) (some ctCap) (some tagCap) random =
          .ok (ct.val, tag) ∧
        ∀ tagLen ptCap : UInt32, 32 ≤ tagLen → pt.val.length ≤ ptCap.toNat →
          spDecrypt crypto (some key) (some iv) aad (some ct) (some tag) tagLen (some ptCap) =
            .ok pt.val) ∧
    (∀ (key iv : Buffer) (aad : Option Buffer) (ct : Buffer) (tag : Tag) (tagLen ptCap : UInt32),
      OpenLimits key iv aad ct tagLen →
      tag ≠ crypto.hmac (deriveSub crypto key.val 1) (macData (bytesOf aad) iv.val ct.val) →
        spDecryptTrace crypto (some key) (some iv) aad (some ct) (some tag) tagLen (some ptCap) =
          ([.mac (macData (bytesOf aad) iv.val ct.val)], .error eauth) ∧
        spDecrypt crypto (some key) (some iv) aad (some ct) (some tag) tagLen (some ptCap) =
          .error eauth) := by
  refine ⟨spEncrypt_ok_iff crypto, ?_, ?_⟩
  · intro key iv aad pt ctCap tagCap random limits
    exact decrypt_of_limits crypto limits random
  · intro key iv aad ct tag tagLen ptCap limits other
    have refused := @spDecryptTrace_refused _ crypto _ key iv ct aad tag tagLen ptCap limits other
    have outcome := spDecryptTrace_outcome crypto (some key) (some iv) aad (some ct) (some tag)
      tagLen (some ptCap)
    rw [refused] at outcome
    exact ⟨refused, outcome.symm⟩

end Commands

end HwrunOs.Sp
