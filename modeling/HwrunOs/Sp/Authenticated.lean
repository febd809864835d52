import HwrunOs.Sp.Crypto
import Mathlib.Logic.Equiv.Basic

/-!
# What the authenticated bytes determine

The authenticated bytes are `aad || iv || ciphertext` without the lengths, so they determine the
three fields only together with the length of one. A tuple with its boundaries shifted by whole
blocks has the same tag, and is decrypted to the end of the plaintext.
-/

namespace HwrunOs.Sp

open HwrunOs.Cbc

section Commands

variable {Tag : Type} {crypto : Openssl Tag}

/-! ## Encryption -/

/-- What a successful `sp_encrypt` returns, and the bound on what it authenticates. -/
theorem sealWith_ok {key iv aad pt ct : List UInt8} {ctCap tagCap : UInt32} {tag : Tag}
    (done : sealWith crypto key iv aad pt ctCap tagCap = .ok (ct, tag)) :
    ct = cbcSeal (crypto.aes (deriveSub crypto key 0)) iv pt ∧
      tag = crypto.hmac (deriveSub crypto key 1) (macData aad iv ct) ∧
      (macData aad iv ct).length ≤ 0x100000 := by
  unfold sealWith at done
  dsimp only at done
  split at done
  · cases done
  split at done
  · cases done
  split at done
  · cases done
  rename_i limit
  split at done
  · cases done
  rename_i inside
  split at done
  · cases done
  simp only [Outcome.ok.injEq, Prod.mk.injEq] at done
  obtain ⟨rfl, rfl⟩ := done
  exact ⟨rfl, rfl, by omega⟩

/-- The initial block that an encryption uses. -/
def usedIv (iv : Option Buffer) (random : Iv) : List UInt8 :=
  match iv with
  | some iv => iv.val
  | none => random.val

/-- A successful `sp_encrypt` encrypts its arguments under an initial block. -/
theorem spEncrypt_ok {key iv aad pt : Option Buffer} {ctCap tagCap : Option UInt32} {random : Iv}
    {ct : List UInt8} {tag : Tag}
    (done : spEncrypt crypto key iv aad pt ctCap tagCap random = .ok (ct, tag)) :
    (∃ bytes, key = some bytes ∧ bytes.val ≠ [] ∧ bytes.val.length ≤ 2000) ∧
      (usedIv iv random).length = 16 ∧
      ∃ ctCap tagCap, sealWith crypto (bytesOf key) (usedIv iv random) (bytesOf aad) (bytesOf pt)
        ctCap tagCap = .ok (ct, tag) := by
  unfold spEncrypt at done
  split at done
  · rename_i bytes text ctRoom tagRoom
    split at done
    · cases done
    rename_i filled
    split at done
    · cases done
    rename_i short
    rw [not_or] at filled
    refine ⟨⟨bytes, rfl, filled.1, Nat.not_lt.mp short⟩, ?_⟩
    split at done
    · rename_i given
      split at done
      · cases done
      rename_i block
      exact ⟨not_not.mp block, _, _, done⟩
    · exact ⟨random.property, _, _, done⟩
  · cases done

/-! ## Decryption -/

variable [DecidableEq Tag]

/-- The 32-bit size of what is authenticated is exact when it is small. -/
theorem macDataLen_eq {aad ct : Nat} (small : aad + 16 + ct ≤ 0x100000) :
    (UInt32.ofNat aad + 16 + UInt32.ofNat ct).toNat = aad + 16 + ct := by
  simp only [UInt32.toNat_add, UInt32.toNat_ofNat', UInt32.reduceToNat]
  omega

/-- What a successful `sp_decrypt` has checked. -/
theorem spDecrypt_ok {key iv aad ct : Option Buffer} {tag : Tag} {tagLen : UInt32}
    {ptCap : Option UInt32} {plain : List UInt8}
    (done : spDecrypt crypto key iv aad ct (some tag) tagLen ptCap = .ok plain) :
    (bytesOf iv).length = 16 ∧ bytesOf ct ≠ [] ∧ 32 ≤ tagLen ∧
      crypto.hmac (deriveSub crypto (bytesOf key) 1) (macData (bytesOf aad) (bytesOf iv)
        (bytesOf ct)) = tag ∧
      cbcOpen (crypto.aes (deriveSub crypto (bytesOf key) 0)) (bytesOf iv) (bytesOf ct) =
        some plain ∧
      ∃ room, ptCap = some room ∧ UInt32.ofNat plain.length ≤ room := by
  unfold spDecrypt at done
  split at done
  case h_2 => cases done
  rename_i bytes text given room same
  obtain rfl : tag = given := Option.some.inj same
  split at done
  · cases done
  rename_i filled
  simp only [not_or] at filled
  split at done
  · cases done
  split at done
  · cases done
  rename_i block
  split at done
  · cases done
  unfold openWith at done
  dsimp only at done
  split at done
  · cases done
  split at done
  · cases done
  split at done
  · cases done
  rename_i long
  split at done
  · cases done
  rename_i matched
  split at done
  · cases done
  rename_i opened
  split at done
  · cases done
  rename_i fits
  obtain rfl := Outcome.ok.inj done
  exact ⟨not_not.mp block, filled.2.1, UInt32.not_lt.mp long, not_not.mp matched, opened, room,
    rfl, UInt32.not_lt.mp fits⟩

/-- A tuple whose tag fits is accepted when its ciphertext is decrypted and the output fits. -/
theorem spDecrypt_accepts {key iv aad ct : Option Buffer} {tag : Tag} {tagLen room : UInt32}
    {plain : List UInt8} (keyed : ∃ bytes, key = some bytes ∧ bytes.val ≠ [] ∧
      bytes.val.length ≤ 2000)
    (block : (bytesOf iv).length = 16) (filled : bytesOf ct ≠ []) (long : 32 ≤ tagLen)
    (small : (macData (bytesOf aad) (bytesOf iv) (bytesOf ct)).length ≤ 0x100000)
    (matched : crypto.hmac (deriveSub crypto (bytesOf key) 1) (macData (bytesOf aad) (bytesOf iv)
      (bytesOf ct)) = tag)
    (opened : cbcOpen (crypto.aes (deriveSub crypto (bytesOf key) 0)) (bytesOf iv) (bytesOf ct) =
      some plain)
    (fits : UInt32.ofNat plain.length ≤ room) :
    spDecrypt crypto key iv aad ct (some tag) tagLen (some room) = .ok plain := by
  obtain ⟨bytes, rfl, solid, short⟩ := keyed
  obtain ⟨first, rfl⟩ : ∃ first, iv = some first := by
    cases iv with
    | none => cases block
    | some first => exact ⟨first, rfl⟩
  obtain ⟨text, rfl⟩ : ∃ text, ct = some text := by
    cases ct with
    | none => exact absurd rfl filled
    | some text => exact ⟨text, rfl⟩
  simp only [bytesOf_some] at block filled small matched opened
  have size : (macData (bytesOf aad) first.val text.val).length =
      (bytesOf aad).length + 16 + text.val.length := by
    rw [macData, List.length_append, List.length_append, block]
  rw [size] at small
  have exact_ := macDataLen_eq small
  have nonzero : tagLen ≠ 0 := by
    rintro rfl
    exact absurd long (by decide)
  have opening : openWith crypto bytes.val first.val (bytesOf aad) text.val tag tagLen room =
      .ok plain := by
    unfold openWith
    dsimp only
    rw [exact_, if_neg (Nat.not_lt.mpr small), size, if_neg (Nat.lt_irrefl _),
      if_neg (UInt32.not_lt.mpr long), matched, if_neg (by simp), opened]
    exact if_neg (UInt32.not_lt.mpr fits)
  have checked : ¬ (bytes.val = [] ∨ text.val = [] ∨ tagLen = 0) := by
    rw [not_or, not_or]
    exact ⟨solid, filled, nonzero⟩
  unfold spDecrypt
  dsimp only
  rw [if_neg checked, block, if_neg (by simp), if_neg (Nat.not_lt.mpr short), opening]

/-- What was encrypted is decrypted under the same key, initial block and associated data. -/
theorem spDecrypt_spEncrypt {key iv aad pt : Option Buffer} {ctCap tagCap : Option UInt32}
    {random : Iv} {ct : List UInt8} {tag : Tag}
    (produced : spEncrypt crypto key iv aad pt ctCap tagCap random = .ok (ct, tag))
    {iv' ct' : Buffer} (sameIv : iv'.val = usedIv iv random) (sameCt : ct'.val = ct)
    {tagLen room : UInt32} (long : 32 ≤ tagLen)
    (fits : UInt32.ofNat (bytesOf pt).length ≤ room) :
    spDecrypt crypto key (some iv') aad (some ct') (some tag) tagLen (some room) =
      .ok (bytesOf pt) := by
  obtain ⟨keyed, first, ctCap, tagCap, sealed⟩ := spEncrypt_ok produced
  obtain ⟨shape, rfl, small⟩ := sealWith_ok sealed
  have opened : cbcOpen (crypto.aes (deriveSub crypto (bytesOf key) 0)) (usedIv iv random) ct =
      some (bytesOf pt) := by
    rw [shape]
    exact cbcOpen_cbcSeal (by decide) (by decide) first _
  have filled : ct ≠ [] := by
    rintro rfl
    cases opened
  rw [← sameIv] at first small opened ⊢
  rw [← sameCt] at filled small opened ⊢
  exact spDecrypt_accepts keyed first filled long small rfl opened fits

/-! ## Acceptance -/

/-- The second tuple has the authenticated bytes of the first with the boundaries shifted by
whole blocks, and its plaintext fits the output buffer. -/
structure Shifted (aad iv ct : List UInt8) (ptLen : Nat) (aad' iv' ct' : List UInt8)
    (tagLen : UInt32) (ptCap : Option UInt32) : Prop where
  /-- The boundary after `aad` is at another place. -/
  boundary : aad'.length ≠ aad.length
  /-- The authenticated bytes are the same. -/
  same : macData aad' iv' ct' = macData aad iv ct
  /-- The second IV is a block. -/
  block : iv'.length = 16
  /-- The second ciphertext is not empty. -/
  filled : ct' ≠ []
  /-- The second ciphertext consists of blocks. -/
  blocks : ct'.length % 16 = 0
  /-- The whole tag is compared. -/
  tagLen : 32 ≤ tagLen
  /-- The output buffer holds the second ciphertext without the padding. -/
  room : ∃ room, ptCap = some room ∧ ct'.length - (16 - ptLen % 16) ≤ room.toNat

/-- With an injective HMAC, `sp_decrypt` accepts under the tag of an encryption no tuple but the
one encrypted, exactly when the tuple is not a shift of it. -/
theorem accepts_sealed_iff
    (injective : ∀ key message key' message', crypto.hmac key message = crypto.hmac key' message' →
      key = key' ∧ message = message')
    {key iv aad pt : Option Buffer} {ctCap tagCap : Option UInt32} {random : Iv}
    {ct : List UInt8} {tag : Tag}
    (produced : spEncrypt crypto key iv aad pt ctCap tagCap random = .ok (ct, tag))
    (iv' aad' ct' : Option Buffer) (tagLen : UInt32) (ptCap : Option UInt32) :
    (∀ plain, spDecrypt crypto key iv' aad' ct' (some tag) tagLen ptCap = .ok plain →
        bytesOf aad' = bytesOf aad ∧ bytesOf iv' = usedIv iv random ∧ bytesOf ct' = ct) ↔
      ¬ Shifted (bytesOf aad) (usedIv iv random) ct (bytesOf pt).length (bytesOf aad')
        (bytesOf iv') (bytesOf ct') tagLen ptCap := by
  obtain ⟨keyed, first, ctCap, tagCap, sealed⟩ := spEncrypt_ok produced
  obtain ⟨rfl, rfl, small⟩ := sealWith_ok sealed
  -- Shifted or not, a tuple with the same authenticated bytes ends with the same padding.
  have opens (same : macData (bytesOf aad') (bytesOf iv') (bytesOf ct') =
        macData (bytesOf aad) (usedIv iv random)
          (cbcSeal (crypto.aes (deriveSub crypto (bytesOf key) 0)) (usedIv iv random) (bytesOf pt)))
      (block : (bytesOf iv').length = 16) (filled : bytesOf ct' ≠ [])
      (blocks : (bytesOf ct').length % 16 = 0) :
      ∃ plain, cbcOpen (crypto.aes (deriveSub crypto (bytesOf key) 0)) (bytesOf iv')
          (bytesOf ct') = some plain ∧
        plain.length = (bytesOf ct').length - (16 - (bytesOf pt).length % 16) := by
    rw [macData, macData, List.append_assoc, List.append_assoc] at same
    exact cbcOpen_of_end (by decide) (by decide) first block filled blocks same.symm
  constructor
  · intro only shifted
    obtain ⟨plain, opened, length⟩ :=
      opens shifted.same shifted.block shifted.filled shifted.blocks
    obtain ⟨room, given, space⟩ := shifted.room
    have fits : UInt32.ofNat plain.length ≤ room := by
      rw [UInt32.le_iff_toNat_le, UInt32.toNat_ofNat', length]
      exact Nat.le_trans (Nat.mod_le _ _) space
    have accepted := spDecrypt_accepts keyed shifted.block shifted.filled
      shifted.tagLen (shifted.same ▸ small) (by rw [shifted.same]) opened fits
    rw [← given] at accepted
    exact shifted.boundary (congrArg List.length (only plain accepted).1)
  · intro unshifted plain accepted
    obtain ⟨block, filled, long, matched, opened, room, given, fits⟩ := spDecrypt_ok accepted
    have same := (injective _ _ _ _ matched).2
    have blocks : (bytesOf ct').length % 16 = 0 := by
      by_contra ragged
      rw [cbcOpen, if_pos (.inr ragged)] at opened
      cases opened
    by_cases boundary : (bytesOf aad').length = (bytesOf aad).length
    · have fields := same
      rw [macData, macData, List.append_assoc, List.append_assoc] at fields
      obtain ⟨front, rest⟩ := List.append_inj fields boundary
      obtain ⟨middle, back⟩ := List.append_inj rest (block.trans first.symm)
      exact ⟨front, middle, back⟩
    · refine absurd ⟨boundary, same, block, filled, blocks, long, room, given, ?_⟩ unshifted
      obtain ⟨other, again, length⟩ := opens same block filled blocks
      obtain rfl : plain = other := Option.some.inj (opened.symm.trans again)
      have sizes := congrArg List.length same
      have bound : plain.length < 2 ^ 32 := by
        rw [macData, List.length_append] at sizes
        omega
      rw [UInt32.le_iff_toNat_le, UInt32.toNat_ofNat_of_lt' bound, length] at fits
      exact fits

end Commands

/-! ## A shifted tuple -/

/-- The two blocks that AES encrypts for the text below, and their ciphertext. -/
def sealedBlocks : (List UInt8 × List UInt8) × (List UInt8 × List UInt8) :=
  (([116, 115, 99, 109, 119, 99, 99, 117, 40, 61, 58, 50, 58, 45, 108, 118],
      [176, 22, 96, 22, 195, 195, 70, 107, 30, 243, 115, 141, 134, 108, 121, 233]),
    ([196, 115, 19, 27, 206, 206, 75, 102, 19, 254, 126, 128, 139, 97, 116, 228],
      [141, 42, 152, 91, 34, 178, 182, 55, 239, 78, 196, 225, 18, 21, 242, 62]))

/-- Swapping two blocks keeps the length of a block. -/
theorem swap_length {first second block : List UInt8} (left : first.length = 16)
    (right : second.length = 16) (whole : block.length = 16) :
    (Equiv.swap first second block).length = 16 := by
  rw [Equiv.swap_apply_def]
  split
  · exact right
  · split
    · exact left
    · exact whole

/-- A permutation of the blocks with the two values that AES has under the key below. -/
def sealedCipher : BlockCipher 16 where
  encrypt := fun block => Equiv.swap sealedBlocks.1.1 sealedBlocks.1.2
    (Equiv.swap sealedBlocks.2.1 sealedBlocks.2.2 block)
  decrypt := fun block => Equiv.swap sealedBlocks.2.1 sealedBlocks.2.2
    (Equiv.swap sealedBlocks.1.1 sealedBlocks.1.2 block)
  encrypt_length := fun _ whole =>
    swap_length (by decide) (by decide) (swap_length (by decide) (by decide) whole)
  decrypt_length := fun _ whole =>
    swap_length (by decide) (by decide) (swap_length (by decide) (by decide) whole)
  decrypt_encrypt := fun block _ => by rw [Equiv.swap_apply_self, Equiv.swap_apply_self]

/-- The SHA-256 value of `"k\x00"`. -/
def encKey : List UInt8 :=
  [48, 56, 163, 33, 111, 186, 30, 149, 93, 144, 173, 220, 224, 167, 125, 70, 189, 239, 123, 81,
    207, 235, 115, 162, 115, 152, 154, 104, 224, 147, 242, 37]

/-- The SHA-256 value of `"k\x01"`. -/
def macKey : List UInt8 :=
  [143, 21, 140, 43, 181, 197, 211, 69, 151, 125, 252, 229, 151, 182, 86, 36, 76, 164, 100, 180,
    194, 120, 16, 27, 29, 86, 249, 207, 134, 138, 204, 184]

/-- The initial block `00 01 … 0f`. -/
def countingIv : List UInt8 := [0, 1, 2, 3, 4, 5, 6, 7, 8, 9, 10, 11, 12, 13, 14, 15]

/-- The tag of the two ciphertext blocks under the initial block, without associated data. -/
def sealedTag : List UInt8 :=
  [100, 93, 228, 36, 130, 121, 237, 84, 79, 140, 157, 129, 148, 86, 72, 251, 251, 210, 187, 210,
    253, 190, 182, 103, 14, 183, 232, 148, 108, 208, 2, 51]

/-- The values that `openssl` computes for the key `"k"`; elsewhere an HMAC is its own input. -/
def knownOpenssl : Openssl (List UInt8 ⊕ List UInt8 × List UInt8) where
  sha256 := fun text =>
    if text = [107, 0] then encKey else if text = [107, 1] then macKey else text
  hmac := fun key message =>
    if (key, message) = (macKey, countingIv ++ sealedBlocks.1.2 ++ sealedBlocks.2.2) then
      .inl sealedTag
    else .inr (key, message)
  aes := fun _ => sealedCipher

/-- The known values are those of an injective HMAC. -/
theorem knownOpenssl_injective (key message key' message' : List UInt8)
    (same : knownOpenssl.hmac key message = knownOpenssl.hmac key' message') :
    key = key' ∧ message = message' := by
  simp only [knownOpenssl] at same
  split at same <;> split at same
  · rename_i one two
    exact Prod.mk.inj (one.trans two.symm)
  · cases same
  · cases same
  · exact Prod.mk.inj (Sum.inr.inj same)

/-- The key `"k"`. -/
def shortKey : Buffer := ⟨[107], by decide⟩

/-- `"transfer 4096 bytes"`. -/
def transferText : Buffer :=
  ⟨[116, 114, 97, 110, 115, 102, 101, 114, 32, 52, 48, 57, 54, 32, 98, 121, 116, 101, 115],
    by decide⟩

/-- The initial block as a buffer. -/
def countingBlock : Buffer := ⟨countingIv, by decide⟩

/-- The ciphertext of the text as a buffer. -/
def transferSealed : Buffer := ⟨sealedBlocks.1.2 ++ sealedBlocks.2.2, by decide⟩

/-- The encryption of the text without associated data. -/
theorem transferText_sealed :
    spEncrypt knownOpenssl (some shortKey) (some countingBlock) none (some transferText)
        (some 64) (some 64) ⟨countingIv, by decide⟩ =
      .ok (transferSealed.val, .inl sealedTag) := by
  decide +kernel

/-- The encrypted tuple is accepted, and with its own associated data nothing else is. -/
theorem transferText_accepted :
    spDecrypt knownOpenssl (some shortKey) (some countingBlock) none (some transferSealed)
        (some (.inl sealedTag)) 32 (some 64) = .ok transferText.val ∧
      ((∀ plain, spDecrypt knownOpenssl (some shortKey) (some countingBlock) none
          (some transferSealed) (some (.inl sealedTag)) 32 (some 64) = .ok plain →
            bytesOf none = bytesOf none ∧ bytesOf (some countingBlock) = countingIv ∧
              bytesOf (some transferSealed) = transferSealed.val) ↔
        ¬ Shifted [] countingIv transferSealed.val 19 [] countingIv transferSealed.val 32
          (some 64)) :=
  ⟨by decide +kernel,
    accepts_sealed_iff knownOpenssl_injective transferText_sealed (some countingBlock) none
      (some transferSealed) 32 (some 64)⟩

/-- With the initial block as associated data and the first ciphertext block as initial block,
the second ciphertext block alone is accepted under the same tag, as the text `"tes"`. -/
theorem shifted_accepted :
    ¬ ∀ (aad' iv' ct' : Option Buffer) (plain : List UInt8),
      spDecrypt knownOpenssl (some shortKey) iv' aad' ct' (some (.inl sealedTag)) 32 (some 64) =
          .ok plain →
        bytesOf aad' = [] ∧ bytesOf iv' = countingIv ∧ bytesOf ct' = transferSealed.val := by
  intro only
  have accepted : spDecrypt knownOpenssl (some shortKey) (some ⟨sealedBlocks.1.2, by decide⟩)
      (some countingBlock) (some ⟨sealedBlocks.2.2, by decide⟩) (some (.inl sealedTag)) 32
        (some 64) = .ok [116, 101, 115] := by
    decide +kernel
  have fields := only _ _ _ _ accepted
  exact absurd fields.1 (by decide)

end HwrunOs.Sp
