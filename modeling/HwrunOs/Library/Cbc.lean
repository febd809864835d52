import Mathlib.Data.List.Basic

/-!
# Cipher block chaining

A block cipher in CBC mode with PKCS#7 padding. Decrypting inverts encrypting, and a block of
the decrypted text depends on two blocks of its input only, so the end of a ciphertext decrypts
under the block before it to the end of the plaintext.
-/

namespace HwrunOs.Cbc

/-- A block cipher under one key. -/
structure BlockCipher (size : Nat) where
  /-- Encrypt one block. -/
  encrypt : List UInt8 → List UInt8
  /-- Decrypt one block. -/
  decrypt : List UInt8 → List UInt8
  /-- Encryption returns a block. -/
  encrypt_length : ∀ block, block.length = size → (encrypt block).length = size
  /-- Decryption returns a block. -/
  decrypt_length : ∀ block, block.length = size → (decrypt block).length = size
  /-- Decryption inverts encryption. -/
  decrypt_encrypt : ∀ block, block.length = size → decrypt (encrypt block) = block

/-! ## Blocks -/

/-- Exclusive or of two blocks. -/
def xorBytes (first second : List UInt8) : List UInt8 := List.zipWith (· ^^^ ·) first second

/-- The exclusive or of two blocks is a block. -/
theorem xorBytes_length {first second : List UInt8} {size : Nat} (left : first.length = size)
    (right : second.length = size) : (xorBytes first second).length = size := by
  rw [xorBytes, List.length_zipWith, left, right, Nat.min_self]

/-- Exclusive or with the same block twice is nothing. -/
theorem xorBytes_xorBytes {first second : List UInt8} (same : first.length = second.length) :
    xorBytes (xorBytes first second) second = first := by
  induction first generalizing second with
  | nil => rfl
  | cons byte rest ih =>
    obtain ⟨other, others, rfl⟩ := List.exists_cons_of_length_eq_add_one same.symm
    have shorter : rest.length = others.length := by simpa using same
    have later := ih shorter
    rw [xorBytes, xorBytes] at later ⊢
    rw [List.zipWith_cons_cons, List.zipWith_cons_cons, later, UInt8.xor_assoc, UInt8.xor_self,
      UInt8.xor_zero]

/-! ## Chaining -/

section Chaining

variable {size : Nat} (cipher : BlockCipher size)

/-- Encrypt a number of blocks after a block. -/
def cbcEncrypt (before : List UInt8) : Nat → List UInt8 → List UInt8
  | 0, _ => []
  | count + 1, text =>
    cipher.encrypt (xorBytes (text.take size) before) ++
      cbcEncrypt (cipher.encrypt (xorBytes (text.take size) before)) count (text.drop size)

/-- Decrypt a number of blocks after a block. -/
def cbcDecrypt (before : List UInt8) : Nat → List UInt8 → List UInt8
  | 0, _ => []
  | count + 1, text =>
    xorBytes (cipher.decrypt (text.take size)) before ++
      cbcDecrypt (text.take size) count (text.drop size)

variable {cipher}

/-- The first block of a text is a block. -/
theorem take_block {count : Nat} {text : List UInt8} (whole : text.length = (count + 1) * size) :
    (text.take size).length = size ∧ (text.drop size).length = count * size := by
  rw [List.length_take, List.length_drop, whole, Nat.add_mul, Nat.one_mul]
  omega

/-- Encryption keeps the number of blocks. -/
theorem cbcEncrypt_length {before : List UInt8} {count : Nat} {text : List UInt8}
    (first : before.length = size) (whole : text.length = count * size) :
    (cbcEncrypt cipher before count text).length = count * size := by
  induction count generalizing before text with
  | zero => simp [cbcEncrypt]
  | succ count ih =>
    have block := take_block whole
    have sealed := cipher.encrypt_length _ (xorBytes_length block.1 first)
    rw [cbcEncrypt, List.length_append, sealed, ih sealed block.2, Nat.add_mul, Nat.one_mul,
      Nat.add_comm]

/-- Decryption keeps the number of blocks. -/
theorem cbcDecrypt_length {before : List UInt8} {count : Nat} {text : List UInt8}
    (first : before.length = size) (whole : text.length = count * size) :
    (cbcDecrypt cipher before count text).length = count * size := by
  induction count generalizing before text with
  | zero => simp [cbcDecrypt]
  | succ count ih =>
    have block := take_block whole
    have opened := xorBytes_length (cipher.decrypt_length _ block.1) first
    rw [cbcDecrypt, List.length_append, opened, ih block.1 block.2, Nat.add_mul, Nat.one_mul,
      Nat.add_comm]

/-- Decryption inverts encryption. -/
theorem cbcDecrypt_cbcEncrypt {before : List UInt8} {count : Nat} {text : List UInt8}
    (first : before.length = size) (whole : text.length = count * size) :
    cbcDecrypt cipher before count (cbcEncrypt cipher before count text) = text := by
  induction count generalizing before text with
  | zero =>
    rw [Nat.zero_mul, List.length_eq_zero_iff] at whole
    rw [whole]
    rfl
  | succ count ih =>
    have block := take_block whole
    have mixed := xorBytes_length block.1 first
    have sealed := cipher.encrypt_length _ mixed
    have opened := cipher.decrypt_encrypt _ mixed
    rw [cbcEncrypt, cbcDecrypt, List.take_left' sealed, List.drop_left' sealed, opened,
      xorBytes_xorBytes (block.1.trans first.symm), ih sealed block.2, List.take_append_drop]

/-- Decryption of what follows some blocks depends on the last of those only. -/
theorem cbcDecrypt_drop {before : List UInt8} (skip count : Nat) {text : List UInt8}
    (first : before.length = size) (whole : text.length = (skip + count) * size) :
    (cbcDecrypt cipher before (skip + count) text).drop (skip * size) =
      cbcDecrypt cipher (((before ++ text).drop (skip * size)).take size) count
        (text.drop (skip * size)) := by
  induction skip generalizing before text with
  | zero => simp [List.take_left' first]
  | succ skip ih =>
    have shape : skip + 1 + count = skip + count + 1 := by omega
    have long : text.length = (skip + count + 1) * size := shape ▸ whole
    have block := take_block long
    have opened := xorBytes_length (cipher.decrypt_length _ block.1) first
    have later := ih block.1 block.2
    have offset : (skip + 1) * size = size + skip * size := by
      rw [Nat.add_mul, Nat.one_mul, Nat.add_comm]
    rw [shape, cbcDecrypt, offset, ← List.drop_drop, List.drop_left' opened, later,
      List.take_append_drop, ← List.drop_drop, List.drop_left' first, ← List.drop_drop]

/-- The last block decrypted depends on the last two blocks of the input, the initial block
included. -/
theorem cbcDecrypt_last {before : List UInt8} (count : Nat) {text : List UInt8}
    (first : before.length = size) (whole : text.length = (count + 1) * size) :
    (cbcDecrypt cipher before (count + 1) text).drop (count * size) =
      cbcDecrypt cipher (((before ++ text).drop (count * size)).take size) 1
        (((before ++ text).drop (count * size)).drop size) := by
  have ending : ((before ++ text).drop (count * size)).drop size = text.drop (count * size) := by
    rw [List.drop_drop, Nat.add_comm, ← List.drop_drop, List.drop_left' first]
  rw [cbcDecrypt_drop count 1 first whole, ending]

end Chaining

/-! ## Padding -/

/-- PKCS#7 padding: as many bytes as are missing to the next block, each that number. -/
def pad (size : Nat) (text : List UInt8) : List UInt8 :=
  text ++ List.replicate (size - text.length % size) (UInt8.ofNat (size - text.length % size))

/-- Remove a padding. -/
def unpad (size : Nat) (text : List UInt8) : Option (List UInt8) :=
  match text.getLast? with
  | none => none
  | some last =>
    if last.toNat = 0 ∨ size < last.toNat ∨ text.length < last.toNat ∨
        ∃ byte ∈ text.drop (text.length - last.toNat), byte ≠ last then none
    else some (text.take (text.length - last.toNat))

/-- A padded text consists of blocks. -/
theorem pad_length {size : Nat} (room : 0 < size) (text : List UInt8) :
    (pad size text).length = (text.length / size + 1) * size := by
  have rest := Nat.mod_lt text.length room
  have parts := Nat.div_add_mod text.length size
  rw [pad, List.length_append, List.length_replicate, Nat.add_mul, Nat.one_mul]
  rw [Nat.mul_comm] at parts
  omega

/-- The end of a text decides its padding: a text with the last block of a padded one has a
padding of the same length. -/
theorem unpad_of_last {size : Nat} (room : 0 < size) (byte : size < 256) {text other : List UInt8}
    (long : size ≤ other.length)
    (same : other.drop (other.length - size) =
      (pad size text).drop ((pad size text).length - size)) :
    unpad size other = some (other.take (other.length - (size - text.length % size))) := by
  have rest := Nat.mod_lt text.length room
  obtain ⟨count, number⟩ : ∃ count, count = size - text.length % size := ⟨_, rfl⟩
  have small : (UInt8.ofNat count).toNat = count := UInt8.toNat_ofNat_of_lt' (by
    show count < 256
    omega)
  -- The last bytes of the last block are the padding.
  have ending : other.drop (other.length - count) = List.replicate count (UInt8.ofNat count) := by
    have split : other.length - count = other.length - size + (size - count) := by omega
    have padded : (pad size text).length = text.length + count := by
      rw [pad, List.length_append, List.length_replicate, number]
    have inside : (pad size text).length - size + (size - count) = text.length := by
      have whole := pad_length room text
      rw [Nat.add_mul, Nat.one_mul] at whole
      omega
    rw [split, ← List.drop_drop, same, List.drop_drop, inside, pad, ← number,
      List.drop_left' rfl]
  have last : other.getLast? = some (UInt8.ofNat count) := by
    rw [← List.take_append_drop (other.length - count) other, ending,
      List.getLast?_append_of_ne_nil _ (by rw [ne_eq, List.replicate_eq_nil_iff]; omega)]
    simp only [List.getLast?_replicate]
    rw [if_neg (by omega)]
  have solid : ¬ (count = 0 ∨ size < count ∨ other.length < count ∨
      ∃ found ∈ other.drop (other.length - count), found ≠ UInt8.ofNat count) := by
    rw [ending]
    rintro (zero | large | short | ⟨found, member, differs⟩)
    · omega
    · omega
    · omega
    · exact differs (List.eq_of_mem_replicate member)
  rw [unpad, last]
  dsimp only
  rw [small, if_neg solid, number]

/-- Removing a padding inverts padding. -/
theorem unpad_pad {size : Nat} (room : 0 < size) (byte : size < 256) (text : List UInt8) :
    unpad size (pad size text) = some text := by
  have long : size ≤ (pad size text).length := by
    rw [pad_length room, Nat.add_mul, Nat.one_mul]
    omega
  rw [unpad_of_last room byte long rfl]
  congr 1
  rw [pad, List.length_append, List.length_replicate, Nat.add_sub_cancel, List.take_left' rfl]

/-! ## Whole texts -/

section Texts

variable {size : Nat} (cipher : BlockCipher size)

/-- Encrypt a text under an initial block. -/
def cbcSeal (iv text : List UInt8) : List UInt8 :=
  cbcEncrypt cipher iv ((pad size text).length / size) (pad size text)

/-- Decrypt a text under an initial block; a text that is no ciphertext has no result. -/
def cbcOpen (iv text : List UInt8) : Option (List UInt8) :=
  if text = [] ∨ text.length % size ≠ 0 then none
  else unpad size (cbcDecrypt cipher iv (text.length / size) text)

variable {cipher} (room : 0 < size) (byte : size < 256)

include room

/-- A ciphertext has one block more than the plaintext has whole blocks. -/
theorem cbcSeal_length {iv : List UInt8} (first : iv.length = size) (text : List UInt8) :
    (cbcSeal cipher iv text).length = (text.length / size + 1) * size := by
  have whole := pad_length room text
  rw [cbcSeal, whole, Nat.mul_div_cancel _ room, cbcEncrypt_length first whole]

include byte

/-- A text of whole blocks that agrees with a ciphertext in its last two blocks, the initial
blocks included, is decrypted to a text that ends with the same padding. -/
theorem cbcOpen_of_end {iv other text found front before : List UInt8}
    (first : iv.length = size) (second : other.length = size)
    (filled : found ≠ []) (aligned : found.length % size = 0)
    (same : front ++ (iv ++ cbcSeal cipher iv text) = before ++ (other ++ found)) :
    ∃ plain, cbcOpen cipher other found = some plain ∧
      plain.length = found.length - (size - text.length % size) := by
  have sealed : (cbcSeal cipher iv text).length = (text.length / size + 1) * size :=
    cbcSeal_length room first text
  obtain ⟨count, whole⟩ : ∃ count, found.length = (count + 1) * size := by
    have parts := Nat.div_add_mod found.length size
    have positive : 0 < found.length := List.length_pos_iff.mpr filled
    have several : found.length / size ≠ 0 := by
      intro zero
      rw [zero, Nat.mul_zero] at parts
      omega
    refine ⟨found.length / size - 1, ?_⟩
    rw [Nat.sub_add_cancel (Nat.one_le_iff_ne_zero.mpr several), Nat.mul_comm]
    omega
  -- Both inputs end with the same two blocks.
  have window : (iv ++ cbcSeal cipher iv text).drop (text.length / size * size) =
      (other ++ found).drop (count * size) := by
    have lengths := congrArg List.length same
    simp only [List.length_append, first, second, sealed, whole, Nat.add_mul,
      Nat.one_mul] at lengths
    have ends := congrArg (List.drop (front.length + text.length / size * size)) same
    have offset : front.length + text.length / size * size = before.length + count * size := by
      omega
    rw [← List.drop_drop, List.drop_left' rfl, offset, ← List.drop_drop,
      List.drop_left' rfl] at ends
    exact ends
  have padded : cbcDecrypt cipher iv (text.length / size + 1) (cbcSeal cipher iv text) =
      pad size text := by
    have blocks := pad_length room text
    rw [cbcSeal, blocks, Nat.mul_div_cancel _ room]
    exact cbcDecrypt_cbcEncrypt first blocks
  have ending := @cbcDecrypt_last size cipher other count found second whole
  rw [← window, ← cbcDecrypt_last _ first sealed, padded] at ending
  have opened : (cbcDecrypt cipher other (count + 1) found).length = (count + 1) * size :=
    cbcDecrypt_length second whole
  have many : found.length / size = count + 1 := by rw [whole, Nat.mul_div_cancel _ room]
  have blocks := pad_length room text
  have last : (cbcDecrypt cipher other (count + 1) found).drop
      ((cbcDecrypt cipher other (count + 1) found).length - size) =
        (pad size text).drop ((pad size text).length - size) := by
    rw [opened, blocks, Nat.add_mul, Nat.add_mul, Nat.one_mul, Nat.add_sub_cancel,
      Nat.add_sub_cancel]
    exact ending
  have long : size ≤ (cbcDecrypt cipher other (count + 1) found).length := by
    rw [opened, Nat.add_mul, Nat.one_mul]
    omega
  have result := unpad_of_last room byte long last
  have opens : cbcOpen cipher other found =
      unpad size (cbcDecrypt cipher other (count + 1) found) := by
    rw [cbcOpen, if_neg (by simp [filled, aligned]), many]
  refine ⟨_, opens.trans result, ?_⟩
  rw [List.length_take, opened, whole]
  omega

/-- Decryption of a whole ciphertext returns the plaintext. -/
theorem cbcOpen_cbcSeal {iv : List UInt8} (first : iv.length = size) (text : List UInt8) :
    cbcOpen cipher iv (cbcSeal cipher iv text) = some text := by
  have sealed : (cbcSeal cipher iv text).length = (text.length / size + 1) * size :=
    cbcSeal_length room first text
  have blocks := pad_length room text
  have filled : cbcSeal cipher iv text ≠ [] := by
    intro empty
    rw [empty, List.length_nil, Nat.add_mul, Nat.one_mul] at sealed
    omega
  have whole : (cbcSeal cipher iv text).length % size = 0 := by rw [sealed, Nat.mul_mod_left]
  have many : (cbcSeal cipher iv text).length / size = (pad size text).length / size := by
    rw [sealed, blocks]
  have inverse : cbcDecrypt cipher iv ((pad size text).length / size) (cbcSeal cipher iv text) =
      pad size text := by
    rw [cbcSeal]
    apply cbcDecrypt_cbcEncrypt first
    rw [blocks, Nat.mul_div_cancel _ room]
  rw [cbcOpen, if_neg (by simp [filled, whole]), many, inverse, unpad_pad room byte]

end Texts

end HwrunOs.Cbc
