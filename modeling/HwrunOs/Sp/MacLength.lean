import HwrunOs.Sp.Crypto

/-!
# The buffer of the authenticated bytes

`sp_encrypt` and `sp_decrypt` add up the size of `aad || iv || ciphertext`, compare the sum with
a limit, allocate that many bytes and copy the three fields. The encryption makes its first
addition in 32 bits, the decryption both, and the limit is compared with what is left after a
wrap. Only the lengths of the arguments matter here, so a pointer is the length behind it.
-/

namespace HwrunOs.Sp

open HwrunOs.Cbc

/-! ## The buffer -/

/-- A call of the plugin, up to its last copy of an authenticated field. -/
inductive MacRun where
  /-- An error code is returned. -/
  | refused (code : Int)
  /-- The ciphertext is read past the end of the output buffer. -/
  | lost
  /-- The bytes allocated, and the copies into them by offset and length. -/
  | copied (size : Nat) (copies : List (Nat × Nat))
  deriving DecidableEq

/-- The steps of one call that are made outside the plugin, and whether they succeed. -/
structure CryptoHost where
  /-- The subkeys are hashed. -/
  hashes : Bool
  /-- `sp_random` returns an initial block. -/
  random : Bool
  /-- The text is written and encrypted, and its ciphertext opened. -/
  encrypts : Bool
  /-- `ftell` returns the size of the ciphertext. -/
  tells : Bool
  /-- The ciphertext is opened again. -/
  reopens : Bool
  /-- The ciphertext is read whole. -/
  reads : Bool
  /-- `malloc` returns a buffer. -/
  allocates : Bool

/-- The copies of the three fields; a copy of no associated data is left out. -/
def macCopies (aadLen ctLen : Nat) : List (Nat × Nat) :=
  (if aadLen = 0 then [] else [(0, aadLen)]) ++ [(aadLen, 16), (aadLen + 16, ctLen)]

/-- What both functions do with `macDataLen`: the limit, the allocation and the copies. -/
def fillMac (host : CryptoHost) (macDataLen : UInt64) (aadLen : UInt32) (ctLen : Nat) : MacRun :=
  if 0x100000 < macDataLen then .refused enomem
  else if !host.allocates then .refused enomem
  else .copied (if macDataLen = 0 then 1 else macDataLen.toNat) (macCopies aadLen.toNat ctLen)

/-! ## Encryption -/

/-- The size of the ciphertext file of `openssl enc -aes-256-cbc`. -/
def cipherSize (ptLen : UInt32) : Nat := (ptLen.toNat / 16 + 1) * 16

/-- `macDataLen` of `sp_encrypt`: the first sum has 32 bits, the second those of `size_t`. -/
def encryptMacLen (aadLen : UInt32) (ctSize : Nat) : UInt64 :=
  (aadLen + 16).toUInt64 + UInt64.ofNat ctSize

/-- `sp_encrypt` from the `fread` of the ciphertext on. -/
def readMac (host : CryptoHost) (aadLen ptLen ctCap : UInt32) : MacRun :=
  if ctCap.toNat < cipherSize ptLen then .lost
  else if !host.reads then .refused eio
  else fillMac host (encryptMacLen aadLen (cipherSize ptLen)) aadLen (cipherSize ptLen)

/-- `sp_encrypt` from the size of the ciphertext on. -/
def sealMac (host : CryptoHost) (aadLen ptLen ctCap : UInt32) : MacRun :=
  if !host.tells ∨ ctCap < UInt32.ofNat (cipherSize ptLen) then .refused enomem
  else if !host.reopens then .refused eio
  else readMac host aadLen ptLen ctCap

/-- `sp_encrypt`, by the lengths of its inputs and the capacities of its outputs. -/
def encryptMac (host : CryptoHost) (key iv aad pt ctCap tagCap : Option UInt32) : MacRun :=
  match key, pt, ctCap, tagCap with
  | some keyLen, some ptLen, some ctCap, some _ =>
    if keyLen = 0 ∨ ptLen = 0 then .refused einval
    else if 2000 < keyLen ∨ !host.hashes then .refused eio
    else if iv ≠ none ∧ iv ≠ some 16 then .refused einval
    else if iv = none ∧ !host.random then .refused eio
    else if !host.encrypts then .refused eio
    else sealMac host (aad.getD 0) ptLen ctCap
  | _, _, _, _ => .refused einval

/-! ## Decryption -/

/-- `macDataLen` of `sp_decrypt`: both sums have 32 bits. -/
def decryptMacLen (aadLen ctLen : UInt32) : UInt64 := (aadLen + 16 + ctLen).toUInt64

/-- `sp_decrypt`, by the lengths of its inputs. -/
def decryptMac (host : CryptoHost) (key iv aad ct tag pt : Option UInt32) : MacRun :=
  match key, ct, tag, pt with
  | some keyLen, some ctLen, some tagLen, some _ =>
    if keyLen = 0 ∨ ctLen = 0 ∨ tagLen = 0 then .refused einval
    else if iv ≠ some 16 then .refused einval
    else if 2000 < keyLen ∨ !host.hashes then .refused eio
    else fillMac host (decryptMacLen (aad.getD 0) ctLen) (aad.getD 0) ctLen.toNat
  | _, _, _, _ => .refused einval

/-! ## The sizes -/

/-- The size that `sp_encrypt` computes has lost what its first sum wrapped. -/
theorem encryptMacLen_toNat {ctSize : Nat} (size : ctSize < 2 ^ 63) (aadLen : UInt32) :
    (encryptMacLen aadLen ctSize).toNat = (aadLen.toNat + 16) % 2 ^ 32 + ctSize := by
  have wide := Nat.mod_lt (aadLen.toNat + 16) (show 0 < 2 ^ 32 by decide)
  have block : (16 : UInt32).toNat = 16 := rfl
  rw [encryptMacLen, UInt64.toNat_add, UInt32.toNat_toUInt64, UInt32.toNat_add,
    UInt64.toNat_ofNat', block]
  omega

/-- The size that `sp_decrypt` computes has lost what both sums wrapped. -/
theorem decryptMacLen_toNat (aadLen ctLen : UInt32) :
    (decryptMacLen aadLen ctLen).toNat = (aadLen.toNat + 16 + ctLen.toNat) % 2 ^ 32 := by
  have block : (16 : UInt32).toNat = 16 := rfl
  rw [decryptMacLen, UInt32.toNat_toUInt64, UInt32.toNat_add, UInt32.toNat_add, block]
  omega

/-- A ciphertext has more bytes than the text, and at most a block more. -/
theorem cipherSize_bounds (ptLen : UInt32) :
    ptLen.toNat < cipherSize ptLen ∧ cipherSize ptLen ≤ ptLen.toNat + 16 := by
  unfold cipherSize
  omega

/-- The copies stay inside a buffer that holds the three fields. -/
theorem macCopies_inside (aadLen ctLen size : Nat) :
    (∀ copy ∈ macCopies aadLen ctLen, copy.1 + copy.2 ≤ size) ↔ aadLen + 16 + ctLen ≤ size := by
  constructor
  · intro inside
    have last := inside (aadLen + 16, ctLen) (by simp [macCopies])
    exact last
  · intro holds copy made
    simp only [macCopies, List.mem_append, List.mem_cons, List.not_mem_nil, or_false] at made
    rcases made with first | rfl | rfl
    · split at first
      · cases first
      · obtain rfl := List.mem_singleton.mp first
        show 0 + aadLen ≤ size
        omega
    · show aadLen + 16 ≤ size
      omega
    · show aadLen + 16 + ctLen ≤ size
      omega

/-! ## Exact buffers -/

/-- An error is returned, or a buffer of the given size, within the limit, is filled. -/
def MacRun.Exact (size : Nat) : MacRun → Prop
  | .refused code => code ≠ spOk
  | .lost => False
  | .copied allocated copies =>
    allocated = size ∧ allocated ≤ 0x100000 ∧ ∀ copy ∈ copies, copy.1 + copy.2 ≤ allocated

/-- A buffer is not exact where `macDataLen` has wrapped and passes the limit. -/
theorem fillMac_exact_iff (host : CryptoHost) (macDataLen : UInt64) (aadLen : UInt32)
    (ctLen : Nat) :
    (fillMac host macDataLen aadLen ctLen).Exact (aadLen.toNat + 16 + ctLen) ↔
      ¬ (macDataLen.toNat ≠ aadLen.toNat + 16 + ctLen ∧ macDataLen.toNat ≤ 0x100000 ∧
        host.allocates = true) := by
  have limit : 0x100000 < macDataLen ↔ 0x100000 < macDataLen.toNat := UInt64.lt_iff_toNat_lt
  have zero : macDataLen = 0 ↔ macDataLen.toNat = 0 := UInt64.toNat_inj.symm
  unfold fillMac
  split
  · rename_i large
    have above := limit.mp large
    exact iff_of_true (show enomem ≠ spOk by decide) fun wrapped => by omega
  · rename_i small
    rw [limit] at small
    split
    · rename_i failed
      refine iff_of_true (show enomem ≠ spOk by decide) fun wrapped => ?_
      rw [wrapped.2.2] at failed
      cases failed
    · rename_i allocates
      have allocates : host.allocates = true := by simpa using allocates
      simp only [MacRun.Exact, macCopies_inside, zero]
      constructor
      · rintro ⟨size, -, inside⟩ ⟨wrapped, -, -⟩
        split at size
        · omega
        · exact wrapped size
      · intro unwrapped
        have size : macDataLen.toNat = aadLen.toNat + 16 + ctLen := by
          by_contra wrapped
          exact unwrapped ⟨wrapped, by omega, allocates⟩
        have filled : macDataLen.toNat ≠ 0 := by omega
        rw [if_neg filled]
        exact ⟨size, by omega, by omega⟩

/-! ## Calls -/

/-- A call of the plugin: null pointers, or the lengths and capacities behind them. -/
inductive CryptoCall where
  /-- `sp_encrypt`. -/
  | encrypt (key iv aad pt ctCap tagCap : Option UInt32)
  /-- `sp_decrypt`. -/
  | decrypt (key iv aad ct tag pt : Option UInt32)

/-- What a call does. -/
def CryptoCall.run (host : CryptoHost) : CryptoCall → MacRun
  | .encrypt key iv aad pt ctCap tagCap => encryptMac host key iv aad pt ctCap tagCap
  | .decrypt key iv aad ct tag pt => decryptMac host key iv aad ct tag pt

/-- The number of bytes that a call authenticates. -/
def CryptoCall.macSize : CryptoCall → Nat
  | .encrypt _ _ aad pt _ _ => (aad.getD 0).toNat + 16 + cipherSize (pt.getD 0)
  | .decrypt _ _ aad ct _ _ => (aad.getD 0).toNat + 16 + (ct.getD 0).toNat

/-- A call of `sp_encrypt` that reads the ciphertext. -/
structure EncryptReads (host : CryptoHost) (key iv pt ctCap tagCap : Option UInt32) : Prop where
  /-- There is a key. -/
  keyed : key.getD 0 ≠ 0
  /-- The key fits the buffer of the derivation. -/
  short : (key.getD 0).toNat ≤ 2000
  /-- There is a text. -/
  filled : pt.getD 0 ≠ 0
  /-- The initial block is one, or made. -/
  block : iv = some 16 ∨ iv = none ∧ host.random = true
  /-- There is room for a tag. -/
  tagged : tagCap ≠ none
  /-- The subkeys are hashed and the text is encrypted. -/
  encrypted : host.hashes = true ∧ host.encrypts = true ∧ host.tells = true ∧ host.reopens = true
  /-- The size of the ciphertext, in 32 bits, is within the output buffer. -/
  room : ∃ room, ctCap = some room ∧ cipherSize (pt.getD 0) % 2 ^ 32 ≤ room.toNat

/-- A call of `sp_decrypt` that adds up the sizes. -/
structure DecryptReads (host : CryptoHost) (key iv ct tag pt : Option UInt32) : Prop where
  /-- There is a key. -/
  keyed : key.getD 0 ≠ 0
  /-- The key fits the buffer of the derivation. -/
  short : (key.getD 0).toNat ≤ 2000
  /-- There is a ciphertext. -/
  filled : ct.getD 0 ≠ 0
  /-- The initial block is one. -/
  block : iv = some 16
  /-- There is a tag. -/
  tagged : tag.getD 0 ≠ 0
  /-- The output is there. -/
  room : pt ≠ none
  /-- The subkeys are hashed. -/
  hashed : host.hashes = true

/-- The authenticated bytes of `sp_encrypt` wrap in 32 bits before the ciphertext is added, and
what is left passes the limit. -/
structure EncryptWraps (host : CryptoHost) (aad pt : Option UInt32) : Prop where
  /-- The first sum wraps. -/
  wraps : 2 ^ 32 ≤ (aad.getD 0).toNat + 16
  /-- What is left of it and the ciphertext are within the limit. -/
  passes : ((aad.getD 0).toNat + 16) % 2 ^ 32 + cipherSize (pt.getD 0) ≤ 0x100000
  /-- The ciphertext is read, and the buffer is there. -/
  made : host.reads = true ∧ host.allocates = true

/-- The authenticated bytes of `sp_decrypt` wrap in 32 bits, and what is left passes the limit. -/
structure DecryptWraps (host : CryptoHost) (aad ct : Option UInt32) : Prop where
  /-- The sum wraps. -/
  wraps : 2 ^ 32 ≤ (aad.getD 0).toNat + 16 + (ct.getD 0).toNat
  /-- What is left of it is within the limit. -/
  passes : ((aad.getD 0).toNat + 16 + (ct.getD 0).toNat) % 2 ^ 32 ≤ 0x100000
  /-- The buffer is there. -/
  made : host.allocates = true

/-- A length of the call wraps in 32 bits and no check sees it: that of the ciphertext of
`sp_encrypt`, or the sum of what is authenticated. -/
def CryptoCall.WrapsUnseen (host : CryptoHost) : CryptoCall → Prop
  | .encrypt key iv aad pt ctCap tagCap => EncryptReads host key iv pt ctCap tagCap ∧
    (2 ^ 32 ≤ (pt.getD 0).toNat + 16 ∨ EncryptWraps host aad pt)
  | .decrypt key iv aad ct tag pt => DecryptReads host key iv ct tag pt ∧
    DecryptWraps host aad ct

/-! ## Calls that reach the sizes -/

/-- An argument that is not empty is there. -/
theorem exists_of_getD_ne {argument : Option UInt32} (filled : argument.getD 0 ≠ 0) :
    ∃ length, argument = some length := by
  cases argument with
  | none => exact absurd rfl filled
  | some length => exact ⟨length, rfl⟩

section Calls

variable {host : CryptoHost} {key iv pt ctCap tagCap ct tag : Option UInt32}

/-- A call of `sp_encrypt` that does not read the ciphertext returns an error. -/
theorem encryptMac_unread (aad : Option UInt32)
    (unread : ¬ EncryptReads host key iv pt ctCap tagCap) :
    ∃ code, code ≠ spOk ∧ encryptMac host key iv aad pt ctCap tagCap = .refused code := by
  unfold encryptMac
  split
  · rename_i keyLen ptLen cap tagLen
    split
    · exact ⟨einval, by decide, rfl⟩
    rename_i filled
    split
    · exact ⟨eio, by decide, rfl⟩
    rename_i short
    split
    · exact ⟨einval, by decide, rfl⟩
    rename_i block
    split
    · exact ⟨eio, by decide, rfl⟩
    rename_i random
    split
    · exact ⟨eio, by decide, rfl⟩
    rename_i encrypts
    unfold sealMac
    split
    · exact ⟨enomem, by decide, rfl⟩
    rename_i room
    split
    · exact ⟨eio, by decide, rfl⟩
    rename_i reopens
    simp only [not_or, not_and, Bool.not_eq_true', Bool.not_eq_false, UInt32.not_lt]
      at filled short block random encrypts room reopens
    refine absurd ⟨filled.1, ?_, filled.2, ?_, nofun, ⟨short.2, encrypts, room.1, reopens⟩, cap,
      rfl, ?_⟩ unread
    · exact UInt32.le_iff_toNat_le.mp short.1
    · by_cases given : iv = none
      · exact .inr ⟨given, random given⟩
      · exact .inl (not_not.mp (block given))
    · have fits := UInt32.le_iff_toNat_le.mp room.2
      rw [UInt32.toNat_ofNat'] at fits
      exact fits
  · exact ⟨einval, by decide, rfl⟩

/-- A call of `sp_encrypt` whose checks pass goes on with the ciphertext. -/
theorem encryptMac_reads (aad : Option UInt32)
    (reads : EncryptReads host key iv pt ctCap tagCap) :
    encryptMac host key iv aad pt ctCap tagCap =
      readMac host (aad.getD 0) (pt.getD 0) (ctCap.getD 0) := by
  obtain ⟨keyed, short, filled, block, tagged, ⟨hashes, encrypts, tells, reopens⟩, cap, rfl,
    fits⟩ := reads
  obtain ⟨keyLen, rfl⟩ := exists_of_getD_ne keyed
  obtain ⟨ptLen, rfl⟩ := exists_of_getD_ne filled
  obtain ⟨tagLen, rfl⟩ := Option.ne_none_iff_exists'.mp tagged
  have arguments : ¬ (keyLen = 0 ∨ ptLen = 0) := not_or.mpr ⟨keyed, filled⟩
  have derives : ¬ (2000 < keyLen ∨ (!host.hashes) = true) := by
    rw [hashes, not_or]
    exact ⟨UInt32.not_lt.mpr (UInt32.le_iff_toNat_le.mpr short), by decide⟩
  have initial : ¬ (iv ≠ none ∧ iv ≠ some 16) := by
    rintro ⟨given, other⟩
    exact block.elim other fun made => given made.1
  have random : ¬ (iv = none ∧ (!host.random) = true) := by
    rintro ⟨rfl, failed⟩
    rcases block with given | ⟨-, made⟩
    · cases given
    · rw [made] at failed
      cases failed
  have room : ¬ ((!host.tells) = true ∨ cap < UInt32.ofNat (cipherSize ptLen)) := by
    rw [tells, not_or, UInt32.not_lt, UInt32.le_iff_toNat_le, UInt32.toNat_ofNat']
    exact ⟨by decide, fits⟩
  unfold encryptMac sealMac
  dsimp only
  rw [if_neg arguments, if_neg derives, if_neg initial, if_neg random, encrypts,
    if_neg (by decide), if_neg room, reopens, if_neg (by decide)]
  rfl

/-- A call of `sp_decrypt` that does not add up the sizes returns an error. -/
theorem decryptMac_unread (aad : Option UInt32) (unread : ¬ DecryptReads host key iv ct tag pt) :
    ∃ code, code ≠ spOk ∧ decryptMac host key iv aad ct tag pt = .refused code := by
  unfold decryptMac
  split
  · split
    · exact ⟨einval, by decide, rfl⟩
    rename_i filled
    split
    · exact ⟨einval, by decide, rfl⟩
    rename_i block
    split
    · exact ⟨eio, by decide, rfl⟩
    rename_i short
    simp only [not_or, Bool.not_eq_true', Bool.not_eq_false, UInt32.not_lt] at filled short
    exact absurd ⟨filled.1, UInt32.le_iff_toNat_le.mp short.1, filled.2.1, not_not.mp block,
      filled.2.2, nofun, short.2⟩ unread
  · exact ⟨einval, by decide, rfl⟩

/-- A call of `sp_decrypt` whose checks pass goes on with the sizes. -/
theorem decryptMac_reads (aad : Option UInt32) (reads : DecryptReads host key iv ct tag pt) :
    decryptMac host key iv aad ct tag pt =
      fillMac host (decryptMacLen (aad.getD 0) (ct.getD 0)) (aad.getD 0) (ct.getD 0).toNat := by
  obtain ⟨keyed, short, filled, rfl, tagged, room, hashed⟩ := reads
  obtain ⟨keyLen, rfl⟩ := exists_of_getD_ne keyed
  obtain ⟨ctLen, rfl⟩ := exists_of_getD_ne filled
  obtain ⟨tagLen, rfl⟩ := exists_of_getD_ne tagged
  obtain ⟨ptCap, rfl⟩ := Option.ne_none_iff_exists'.mp room
  have arguments : ¬ (keyLen = 0 ∨ ctLen = 0 ∨ tagLen = 0) := by
    rw [not_or, not_or]
    exact ⟨keyed, filled, tagged⟩
  have derives : ¬ (2000 < keyLen ∨ (!host.hashes) = true) := by
    rw [hashed, not_or]
    exact ⟨UInt32.not_lt.mpr (UInt32.le_iff_toNat_le.mpr short), by decide⟩
  unfold decryptMac
  dsimp only
  rw [if_neg arguments, if_neg (not_not.mpr rfl), if_neg derives]
  rfl

end Calls

/-! ## The calls on bytes -/

/-- The length behind a pointer. -/
def lengthOf (buffer : Option Buffer) : Option UInt32 :=
  buffer.map fun bytes => UInt32.ofNat bytes.val.length

/-- A machine on which every step succeeds. -/
def willing : CryptoHost := ⟨true, true, true, true, true, true, true⟩

/-- The result of a call that goes on as given once the authenticated bytes are copied. -/
def MacRun.outcome {α : Type} (rest : Outcome α) : MacRun → Outcome α
  | .refused code => .error code
  | .lost => .overflow
  | .copied size copies => if ∀ copy ∈ copies, copy.1 + copy.2 ≤ size then rest else .overflow

/-- The length of a buffer is that of its bytes. -/
theorem lengthOf_toNat (buffer : Option Buffer) :
    ((lengthOf buffer).getD 0).toNat = (bytesOf buffer).length := by
  cases buffer with
  | none => rfl
  | some bytes => exact UInt32.toNat_ofNat_of_lt' bytes.property

/-- A buffer is empty where its length is zero. -/
theorem ofNat_length_eq_zero (buffer : Buffer) :
    UInt32.ofNat buffer.val.length = 0 ↔ buffer.val = [] := by
  rw [← UInt32.toNat_inj, UInt32.toNat_ofNat_of_lt' buffer.property]
  exact List.length_eq_zero_iff

/-- A key is too long for the derivation where its length is. -/
theorem long_iff (buffer : Buffer) :
    2000 < UInt32.ofNat buffer.val.length ↔ 2000 < buffer.val.length := by
  rw [UInt32.lt_iff_toNat_lt, UInt32.toNat_ofNat_of_lt' buffer.property]
  rfl

/-- A buffer is a block where its length is. -/
theorem lengthOf_block (buffer : Buffer) :
    lengthOf (some buffer) = some 16 ↔ buffer.val.length = 16 := by
  show some (UInt32.ofNat buffer.val.length) = some 16 ↔ _
  rw [Option.some_inj, ← UInt32.toNat_inj, UInt32.toNat_ofNat_of_lt' buffer.property]
  rfl

/-- The limit and the copies, on a machine that allocates. -/
theorem fillMac_outcome {α : Type} (macDataLen : UInt64) (aadLen : UInt32) (ctLen : Nat)
    (rest : Outcome α) :
    (fillMac willing macDataLen aadLen ctLen).outcome rest =
      if 0x100000 < macDataLen.toNat then .error enomem
      else if macDataLen.toNat < aadLen.toNat + 16 + ctLen then .overflow
      else rest := by
  have limit : 0x100000 < macDataLen ↔ 0x100000 < macDataLen.toNat := UInt64.lt_iff_toNat_lt
  have zero : macDataLen = 0 ↔ macDataLen.toNat = 0 := UInt64.toNat_inj.symm
  unfold fillMac
  by_cases large : 0x100000 < macDataLen.toNat
  · rw [if_pos (limit.mpr large), if_pos large]
    rfl
  · rw [if_neg (mt limit.mp large), if_neg large]
    show (if ∀ copy ∈ macCopies aadLen.toNat ctLen, _ then rest else Outcome.overflow) = _
    by_cases short : macDataLen.toNat < aadLen.toNat + 16 + ctLen
    · rw [if_pos short, if_neg]
      simp only [macCopies_inside, zero]
      split <;> omega
    · rw [if_neg short, if_pos]
      simp only [macCopies_inside, zero]
      split <;> omega

section Commands

variable {Tag : Type} (crypto : Openssl Tag)

/-- `sp_encrypt` on bytes is what its lengths say, with a result that depends on the bytes. -/
theorem sealWith_outcome {iv : List UInt8} (block : iv.length = 16) (key : List UInt8)
    (aad : Option Buffer) (pt : Buffer) (ctCap tagCap : UInt32) :
    ∃ rest : Outcome (List UInt8 × Tag), rest ≠ .overflow ∧
      sealWith crypto key iv (bytesOf aad) pt.val ctCap tagCap =
        (sealMac willing ((lengthOf aad).getD 0) (UInt32.ofNat pt.val.length) ctCap).outcome
          rest := by
  have size : (cbcSeal (crypto.aes (deriveSub crypto key 0)) iv pt.val).length =
      cipherSize (UInt32.ofNat pt.val.length) := by
    rw [cbcSeal_length (by decide) block, cipherSize, UInt32.toNat_ofNat_of_lt' pt.property]
  obtain ⟨longer, bound⟩ := cipherSize_bounds (UInt32.ofNat pt.val.length)
  have text := (UInt32.ofNat pt.val.length).toNat_lt
  have data := lengthOf_toNat aad
  have same : UInt32.ofNat (bytesOf aad).length = (lengthOf aad).getD 0 := by
    rw [← data, UInt32.ofNat_toNat]
  unfold sealWith
  generalize cbcSeal (crypto.aes (deriveSub crypto key 0)) iv pt.val = ct at size
  have filled : ct ≠ [] := by
    rintro rfl
    rw [List.length_nil] at size
    omega
  have total : (macData (bytesOf aad) iv ct).length =
      ((lengthOf aad).getD 0).toNat + 16 + ct.length := by
    rw [macData, List.length_append, List.length_append, block, data]
  have computed : (UInt32.ofNat (bytesOf aad).length + 16).toNat + ct.length =
      (encryptMacLen ((lengthOf aad).getD 0) ct.length).toNat := by
    rw [encryptMacLen_toNat (by omega), same, UInt32.toNat_add]
    rfl
  obtain ⟨rest, made⟩ : ∃ rest : Outcome (List UInt8 × Tag), rest =
      if tagCap < 32 then .error enomem
      else .ok (ct, crypto.hmac (deriveSub crypto key 1) (macData (bytesOf aad) iv ct)) :=
    ⟨_, rfl⟩
  refine ⟨rest, ?_, ?_⟩
  · rw [made]
    split <;> nofun
  · unfold sealMac readMac
    rw [← size]
    simp only [filled, false_or, total, computed, ← made]
    by_cases narrow : ctCap < UInt32.ofNat ct.length
    · rw [if_pos narrow, if_pos (.inr narrow)]
      rfl
    rw [if_neg narrow, if_neg (not_or.mpr ⟨nofun, narrow⟩)]
    by_cases short : ctCap.toNat < ct.length
    · rw [if_pos short, if_pos short]
      rfl
    · rw [if_neg short, if_neg short]
      exact (fillMac_outcome _ _ _ _).symm

/-- `sp_encrypt` on bytes does what it does on their lengths. -/
theorem spEncrypt_outcome (key iv aad pt : Option Buffer) (ctCap tagCap : Option UInt32)
    (random : Iv) :
    ∃ rest : Outcome (List UInt8 × Tag), rest ≠ .overflow ∧
      spEncrypt crypto key iv aad pt ctCap tagCap random =
        (encryptMac willing (lengthOf key) (lengthOf iv) (lengthOf aad) (lengthOf pt) ctCap
          tagCap).outcome rest := by
  unfold spEncrypt
  split
  · rename_i key pt ctCap tagCap
    show ∃ rest, rest ≠ _ ∧ _ = MacRun.outcome rest (if UInt32.ofNat key.val.length = 0 ∨
      UInt32.ofNat pt.val.length = 0 then _ else if 2000 < UInt32.ofNat key.val.length ∨ _ then _
        else _)
    simp only [ofNat_length_eq_zero]
    split
    · exact ⟨.error einval, nofun, rfl⟩
    simp only [long_iff]
    by_cases large : 2000 < key.val.length
    · rw [if_pos large, if_pos (.inl large)]
      exact ⟨.error eio, nofun, rfl⟩
    rw [if_neg large, if_neg (not_or.mpr ⟨large, nofun⟩)]
    cases iv with
    | none =>
      rw [if_neg fun given => given.1 rfl, if_neg (by decide), if_neg (by decide)]
      exact sealWith_outcome crypto random.property key.val aad pt ctCap tagCap
    | some iv =>
      dsimp only
      by_cases block : iv.val.length = 16
      · rw [if_neg (not_not.mpr block),
          if_neg fun other => other.2 ((lengthOf_block iv).mpr block), if_neg nofun,
          if_neg (by decide)]
        exact sealWith_outcome crypto block key.val aad pt ctCap tagCap
      · rw [if_pos block, if_pos ⟨nofun, mt (lengthOf_block iv).mp block⟩]
        exact ⟨.error einval, nofun, rfl⟩
  · rename_i missing
    refine ⟨.error einval, nofun, ?_⟩
    unfold encryptMac
    split
    · rename_i length text cap room keyed filled
      obtain ⟨bytes, rfl, -⟩ := Option.map_eq_some_iff.mp keyed
      obtain ⟨content, rfl, -⟩ := Option.map_eq_some_iff.mp filled
      exact absurd rfl (missing bytes content cap room rfl rfl rfl)
    · rfl

variable [DecidableEq Tag]

/-- `sp_decrypt` on bytes is what its lengths say, with a result that depends on the bytes. -/
theorem openWith_outcome {iv : List UInt8} (block : iv.length = 16) (key : List UInt8)
    (aad : Option Buffer) (ct : Buffer) (tag : Tag) (tagLen ptCap : UInt32) :
    ∃ rest : Outcome (List UInt8), rest ≠ .overflow ∧
      openWith crypto key iv (bytesOf aad) ct.val tag tagLen ptCap =
        (fillMac willing (decryptMacLen ((lengthOf aad).getD 0) (UInt32.ofNat ct.val.length))
          ((lengthOf aad).getD 0) (UInt32.ofNat ct.val.length).toNat).outcome rest := by
  have data := lengthOf_toNat aad
  have text := UInt32.toNat_ofNat_of_lt' ct.property
  have same : UInt32.ofNat (bytesOf aad).length = (lengthOf aad).getD 0 := by
    rw [← data, UInt32.ofNat_toNat]
  have total : (macData (bytesOf aad) iv ct.val).length =
      ((lengthOf aad).getD 0).toNat + 16 + (UInt32.ofNat ct.val.length).toNat := by
    rw [macData, List.length_append, List.length_append, block, data, text]
  have computed : (UInt32.ofNat (bytesOf aad).length + 16 + UInt32.ofNat ct.val.length).toNat =
      (decryptMacLen ((lengthOf aad).getD 0) (UInt32.ofNat ct.val.length)).toNat := by
    rw [same, decryptMacLen, UInt32.toNat_toUInt64]
  simp only [fillMac_outcome]
  rw [← total, ← computed, openWith]
  refine ⟨_, ?_, rfl⟩
  split
  · nofun
  split
  · nofun
  split
  · nofun
  split <;> nofun

/-- `sp_decrypt` on bytes does what it does on their lengths. -/
theorem spDecrypt_outcome (key iv aad ct : Option Buffer) (tag : Option Tag) (tagLen : UInt32)
    (ptCap : Option UInt32) :
    ∃ rest : Outcome (List UInt8), rest ≠ .overflow ∧
      spDecrypt crypto key iv aad ct tag tagLen ptCap =
        (decryptMac willing (lengthOf key) (lengthOf iv) (lengthOf aad) (lengthOf ct)
          (tag.map fun _ => tagLen) ptCap).outcome rest := by
  unfold spDecrypt
  split
  · rename_i key ct tag ptCap
    show ∃ rest, rest ≠ _ ∧ _ = MacRun.outcome rest (if UInt32.ofNat key.val.length = 0 ∨
      UInt32.ofNat ct.val.length = 0 ∨ _ then _ else _)
    simp only [ofNat_length_eq_zero]
    split
    · exact ⟨.error einval, nofun, rfl⟩
    cases iv with
    | none => exact ⟨.error einval, nofun, rfl⟩
    | some iv =>
      dsimp only
      by_cases block : iv.val.length = 16
      · rw [if_neg (not_not.mpr block), if_neg (not_not.mpr ((lengthOf_block iv).mpr block))]
        simp only [long_iff]
        by_cases large : 2000 < key.val.length
        · rw [if_pos large, if_pos (.inl large)]
          exact ⟨.error eio, nofun, rfl⟩
        · rw [if_neg large, if_neg (not_or.mpr ⟨large, nofun⟩)]
          exact openWith_outcome crypto block key.val aad ct tag tagLen ptCap
      · rw [if_pos block, if_pos (mt (lengthOf_block iv).mp block)]
        exact ⟨.error einval, nofun, rfl⟩
  · rename_i missing
    refine ⟨.error einval, nofun, ?_⟩
    unfold decryptMac
    split
    · rename_i length text tagLen room keyed filled tagged
      obtain ⟨bytes, rfl, -⟩ := Option.map_eq_some_iff.mp keyed
      obtain ⟨content, rfl, -⟩ := Option.map_eq_some_iff.mp filled
      obtain ⟨value, rfl, -⟩ := Option.map_eq_some_iff.mp tagged
      exact absurd rfl (missing bytes content value room rfl rfl rfl)
    · rfl

end Commands

/-! ## The exact calls -/

/-- From the `fread` on, `sp_encrypt` fills an exact buffer unless the ciphertext is longer than
the output or the authenticated bytes wrap. -/
theorem readMac_exact_iff (host : CryptoHost) (aad pt : Option UInt32) (ctCap : UInt32)
    (fits : cipherSize (pt.getD 0) % 2 ^ 32 ≤ ctCap.toNat) :
    (readMac host (aad.getD 0) (pt.getD 0) ctCap).Exact
        ((aad.getD 0).toNat + 16 + cipherSize (pt.getD 0)) ↔
      ¬ (2 ^ 32 ≤ (pt.getD 0).toNat + 16 ∨ EncryptWraps host aad pt) := by
  have text := (pt.getD 0).toNat_lt
  have data := (aad.getD 0).toNat_lt
  obtain ⟨longer, block⟩ := cipherSize_bounds (pt.getD 0)
  have whole : cipherSize (pt.getD 0) % 16 = 0 := Nat.mul_mod_left _ _
  have large : 2 ^ 32 ≤ cipherSize (pt.getD 0) ↔ 2 ^ 32 ≤ (pt.getD 0).toNat + 16 := by omega
  have room := ctCap.toNat_lt
  unfold readMac
  split
  · rename_i short
    have wraps : 2 ^ 32 ≤ cipherSize (pt.getD 0) := by omega
    exact iff_of_false id fun unwrapped => unwrapped (.inl (large.mp wraps))
  · rename_i enough
    have small : ¬ 2 ^ 32 ≤ (pt.getD 0).toNat + 16 := by omega
    split
    · rename_i unread
      refine iff_of_true (show eio ≠ spOk by decide) ?_
      rintro (wraps | wraps)
      · exact small wraps
      · rw [wraps.made.1] at unread
        cases unread
    · rename_i complete
      have reads : host.reads = true := by simpa using complete
      rw [fillMac_exact_iff, encryptMacLen_toNat (by omega)]
      refine not_congr ⟨?_, ?_⟩
      · rintro ⟨other, passes, allocates⟩
        exact .inr ⟨by omega, passes, reads, allocates⟩
      · rintro (wraps | wraps)
        · exact absurd wraps small
        · have wide := wraps.wraps
          exact ⟨by omega, wraps.passes, wraps.made.2⟩

/-- A call returns an error, or allocates exactly what it authenticates and stays inside, if and
only if none of its lengths wraps unseen. -/
theorem macRun_exact_iff (host : CryptoHost) (call : CryptoCall) :
    (call.run host).Exact call.macSize ↔ ¬ call.WrapsUnseen host := by
  cases call with
  | encrypt key iv aad pt ctCap tagCap =>
    show (encryptMac host key iv aad pt ctCap tagCap).Exact _ ↔
      ¬ (EncryptReads host key iv pt ctCap tagCap ∧ _)
    by_cases reads : EncryptReads host key iv pt ctCap tagCap
    · obtain ⟨cap, rfl, fits⟩ := reads.room
      rw [encryptMac_reads aad reads]
      exact (readMac_exact_iff host aad pt cap fits).trans
        (not_congr (and_iff_right reads).symm)
    · obtain ⟨code, failure, refused⟩ := encryptMac_unread aad reads
      rw [refused]
      exact iff_of_true failure fun wraps => reads wraps.1
  | decrypt key iv aad ct tag pt =>
    show (decryptMac host key iv aad ct tag pt).Exact _ ↔
      ¬ (DecryptReads host key iv ct tag pt ∧ _)
    by_cases reads : DecryptReads host key iv ct tag pt
    · rw [decryptMac_reads aad reads]
      refine (fillMac_exact_iff host _ _ _).trans (not_congr ?_)
      rw [decryptMacLen_toNat]
      constructor
      · rintro ⟨other, passes, allocates⟩
        exact ⟨reads, by omega, passes, allocates⟩
      · rintro ⟨-, wraps, passes, allocates⟩
        exact ⟨by omega, passes, allocates⟩
    · obtain ⟨code, failure, refused⟩ := decryptMac_unread aad reads
      rw [refused]
      exact iff_of_true failure fun wraps => reads wraps.1

/-- An encryption with 4 GiB less 16 bytes of associated data. -/
def wrappedEncrypt : CryptoCall :=
  .encrypt (some 1) (some 16) (some 4294967280) (some 1) (some 64) (some 32)

/-- A decryption with 4 GiB less 16 bytes of associated data. -/
def wrappedDecrypt : CryptoCall :=
  .decrypt (some 1) (some 16) (some 4294967280) (some 16) (some 32) (some 64)

/-- With 4 GiB less 16 bytes of associated data, both functions allocate 16 bytes and copy the
three fields past them. -/
theorem wrapped_overruns :
    ¬ (wrappedEncrypt.run willing).Exact wrappedEncrypt.macSize ∧
      ¬ (wrappedDecrypt.run willing).Exact wrappedDecrypt.macSize ∧
      wrappedDecrypt.run willing =
        .copied 16 [(0, 4294967280), (4294967280, 16), (4294967296, 16)] := by
  have sealed : wrappedEncrypt.run willing =
      .copied 16 [(0, 4294967280), (4294967280, 16), (4294967296, 16)] := by
    decide +kernel
  have opened : wrappedDecrypt.run willing =
      .copied 16 [(0, 4294967280), (4294967280, 16), (4294967296, 16)] := by
    decide +kernel
  refine ⟨?_, ?_, opened⟩
  · rw [sealed]
    rintro ⟨size, -, -⟩
    have sum : wrappedEncrypt.macSize = 4294967280 + 16 + 16 := rfl
    omega
  · rw [opened]
    rintro ⟨size, -, -⟩
    have sum : wrappedDecrypt.macSize = 4294967280 + 16 + 16 := rfl
    omega

end HwrunOs.Sp
