import HwrunOs.Library.Bytes

/-!
# The operations of the CRYPTO protocol

`crypto_impl.c` checks pointers, lengths and capacities and leaves the work to the cipher
library. The library is a parameter: what it writes and whether it succeeds depend on the bytes
it is given. An input is a pointer with a declared length; the memory behind it may hold more.
-/

namespace HwrunOs.Crypto

open HwrunOs.Bytes

/-! ## Result codes -/

/-- `-EIO`. -/
def eio : Int := -5
/-- `-ENOMEM`. -/
def enomem : Int := -12
/-- `-EINVAL`. -/
def einval : Int := -22
/-- `-EILSEQ`. -/
def eilseq : Int := -84
/-- `-ENOTSUP`. -/
def enotsup : Int := -95

/-! ## Inputs -/

/-- A pointer to bytes with their declared length; a null pointer has no memory. -/
structure Input where
  /-- The memory from the pointer on. -/
  memory : Option (List UInt8)
  /-- The declared length. -/
  len : UInt32
  /-- The declared bytes are there. -/
  readable : ∀ bytes ∈ memory, len.toNat ≤ bytes.length

/-- The declared bytes. -/
def Input.declared (input : Input) : Option (List UInt8) :=
  input.memory.map (List.take input.len.toNat)

/-- The pointer is null. -/
def Input.isNull (input : Input) : Bool := input.memory.isNone

/-- The input without what follows its declared bytes. -/
def Input.cut (input : Input) : Input where
  memory := input.declared
  len := input.len
  readable := by
    intro bytes found
    obtain ⟨memory, held, rfl⟩ := Option.map_eq_some_iff.mp found
    rw [List.length_take, Nat.min_eq_left (input.readable memory held)]

/-- A length as an `int`. -/
def asInt (len : UInt32) : Int :=
  if len.toNat < 2147483648 then len.toNat else len.toNat - 4294967296

/-! ## Algorithms -/

/-- `hw_crypto_cipher_t`. -/
inductive Cipher where
  /-- AES-128 in CBC mode. -/
  | aes128Cbc
  /-- AES-256 in CBC mode. -/
  | aes256Cbc
  /-- AES-128 in GCM mode. -/
  | aes128Gcm
  /-- AES-256 in GCM mode. -/
  | aes256Gcm
  deriving DecidableEq

/-- `hw_crypto_hash_t`. -/
inductive Hash where
  /-- SHA-256. -/
  | sha256
  /-- SHA-512. -/
  | sha512
  /-- MD5. -/
  | md5
  deriving DecidableEq

/-- `cipher_lookup`. -/
def cipherLookup (cipher : Int) : Option Cipher :=
  if cipher = 0 then some .aes128Cbc
  else if cipher = 1 then some .aes256Cbc
  else if cipher = 2 then some .aes128Gcm
  else if cipher = 3 then some .aes256Gcm
  else none

/-- `key_len` of a cipher. -/
def Cipher.keyLen : Cipher → Int
  | .aes128Cbc | .aes128Gcm => 16
  | .aes256Cbc | .aes256Gcm => 32

/-- `iv_len` of a cipher. -/
def Cipher.ivLen : Cipher → Int
  | .aes128Cbc | .aes256Cbc => 16
  | .aes128Gcm | .aes256Gcm => 12

/-- `is_aead` of a cipher. -/
def Cipher.isAead : Cipher → Bool
  | .aes128Cbc | .aes256Cbc => false
  | .aes128Gcm | .aes256Gcm => true

/-- `hash_md`. -/
def hashMd (algo : Int) : Option Hash :=
  if algo = 0 then some .sha256
  else if algo = 1 then some .sha512
  else if algo = 2 then some .md5
  else none

/-- `EVP_MD_get_size`. -/
def Hash.size : Hash → Nat
  | .sha256 => 32
  | .sha512 => 64
  | .md5 => 16

/-- `HW_CRYPTO_GCM_TAG_LEN`. -/
def gcmTagLen : Nat := 16

/-! ## The cipher library -/

/-- What the library is told of one encryption or decryption. -/
structure Session where
  /-- Encryption. -/
  encrypting : Bool
  /-- Cipher. -/
  cipher : Cipher
  /-- Key. -/
  key : Option (List UInt8)
  /-- Initialisation vector. -/
  iv : Option (List UInt8)
  /-- Length of the vector that is set. -/
  ivLen : Int
  /-- Additional data and their length. -/
  aad : Option (List UInt8) × Int
  /-- Expected tag of a decryption. -/
  tag : Option (List UInt8)
  /-- Input. -/
  input : Option (List UInt8)
  /-- Length of the input. -/
  inputLen : Int

/-- `libcrypto`: the outcome of each call and the bytes it writes. -/
structure Libcrypto where
  /-- A context can be allocated. -/
  newCtx : Bool
  /-- `EVP_DigestInit_ex`, `EVP_DigestUpdate` and `EVP_DigestFinal_ex`. -/
  digest : Hash → List UInt8 → Option (List UInt8)
  /-- `HMAC`, with the length of the key as an `int`. -/
  hmac : Hash → Option (List UInt8) → Int → List UInt8 → Option (List UInt8)
  /-- `EVP_EncryptInit_ex` or `EVP_DecryptInit_ex` with a cipher. -/
  setCipher : Session → Bool
  /-- `EVP_CTRL_AEAD_SET_IVLEN`. -/
  setIvLen : Session → Bool
  /-- `EVP_EncryptInit_ex` or `EVP_DecryptInit_ex` with key and vector. -/
  setKey : Session → Bool
  /-- `EVP_CTRL_AEAD_SET_TAG`. -/
  setTag : Session → Bool
  /-- `EVP_EncryptUpdate` or `EVP_DecryptUpdate` with additional data. -/
  addAad : Session → Bool
  /-- `EVP_EncryptUpdate` or `EVP_DecryptUpdate`. -/
  update : Session → List UInt8 × Bool
  /-- `EVP_EncryptFinal_ex` or `EVP_DecryptFinal_ex`. -/
  final : Session → List UInt8 × Bool
  /-- `EVP_CTRL_AEAD_GET_TAG`. -/
  getTag : Session → Option (List UInt8)

/-- What the library writes behind the first update. -/
def Libcrypto.written (lib : Libcrypto) (session : Session) : List UInt8 :=
  (lib.update session).1 ++ if (lib.update session).2 then (lib.final session).1 else []

/-- What is documented of the library. -/
structure Libcrypto.Documented (lib : Libcrypto) : Prop where
  /-- A digest has its fixed size. -/
  digest : ∀ md data bytes, lib.digest md data = some bytes → bytes.length = md.size
  /-- A keyed digest has its fixed size. -/
  hmac : ∀ md key len data bytes, lib.hmac md key len data = some bytes → bytes.length = md.size
  /-- A negative length is rejected. -/
  negative : ∀ session : Session, session.inputLen < 0 → lib.update session = ([], false)
  /-- An encryption in CBC mode writes at most the next multiple of the block size, and exactly
  that when it succeeds. -/
  padded : ∀ session : Session, session.encrypting = true → session.cipher.isAead = false →
    0 ≤ session.inputLen →
      ((lib.written session).length : Int) ≤ (session.inputLen / 16 + 1) * 16 ∧
      ((lib.update session).2 = true → (lib.final session).2 = true →
        ((lib.written session).length : Int) = (session.inputLen / 16 + 1) * 16)
  /-- An encryption in GCM mode and a decryption write at most the length of the input. -/
  streamed : ∀ session : Session, session.encrypting = false ∨ session.cipher.isAead = true →
    0 ≤ session.inputLen → ((lib.written session).length : Int) ≤ session.inputLen
  /-- A tag has its fixed size. -/
  tag : ∀ session bytes, lib.getTag session = some bytes → bytes.length = gcmTagLen

/-! ## Requests -/

/-- `hw_crypto_hash_req_t`. -/
structure HashReq where
  /-- Algorithm. -/
  algo : Int
  /-- Data. -/
  data : Input
  /-- The output pointer is not null. -/
  out : Bool
  /-- Capacity of the output. -/
  outCap : UInt32

/-- `hw_crypto_hmac_req_t`. -/
structure HmacReq where
  /-- Algorithm. -/
  algo : Int
  /-- Key. -/
  key : Input
  /-- Data. -/
  data : Input
  /-- The output pointer is not null. -/
  out : Bool
  /-- Capacity of the output. -/
  outCap : UInt32

/-- `hw_crypto_sym_req_t`. -/
structure SymReq where
  /-- Cipher. -/
  cipher : Int
  /-- Key. -/
  key : Input
  /-- Initialisation vector. -/
  iv : Input
  /-- Additional data. -/
  aad : Input
  /-- Input. -/
  input : Input
  /-- The output pointer is not null. -/
  out : Bool
  /-- Capacity of the output. -/
  outCap : UInt32
  /-- Tag buffer and its capacity. -/
  tag : Input

/-- What an operation returns and writes. -/
structure Outcome where
  /-- Result code. -/
  code : Int
  /-- Bytes written to the output from its beginning. -/
  out : List UInt8
  /-- Bytes written to the tag buffer. -/
  tag : List UInt8
  /-- Length of the output, when it is reported. -/
  outLen : Option Nat
  /-- Length of the tag, when it is reported. -/
  tagLen : Option Nat
  /-- Kind of the imported key, when it is reported. -/
  isAsym : Option Int
  deriving DecidableEq

/-- An error that writes nothing. -/
def Outcome.fail (code : Int) : Outcome := ⟨code, [], [], none, none, none⟩

/-! ## Digests -/

/-- `crypto_hash_impl`. -/
def cryptoHash (lib : Libcrypto) (req : HashReq) : Outcome :=
  match req.data.declared with
  | none => .fail einval
  | some data =>
    match hashMd req.algo with
    | none => .fail enotsup
    | some md =>
      if md.size = 0 then .fail enotsup
      else if req.out = false ∨ req.outCap.toNat < md.size then .fail enomem
      else if !lib.newCtx then .fail enomem
      else
        match lib.digest md data with
        | none => .fail eio
        | some bytes => ⟨0, bytes, [], some bytes.length, none, none⟩

/-- `crypto_hmac_impl`. -/
def cryptoHmac (lib : Libcrypto) (req : HmacReq) : Outcome :=
  match req.data.declared with
  | none => .fail einval
  | some data =>
    match hashMd req.algo with
    | none => .fail enotsup
    | some md =>
      if req.out = false then .fail einval
      else
        match lib.hmac md req.key.declared (asInt req.key.len) data with
        | none => .fail eio
        | some bytes => ⟨0, bytes, [], some bytes.length, none, none⟩

/-! ## Ciphers -/

/-- The session of a request. -/
def SymReq.session (req : SymReq) (encrypting : Bool) (cipher : Cipher) : Session where
  encrypting := encrypting
  cipher := cipher
  key := req.key.declared
  iv := req.iv.declared
  ivLen := asInt req.iv.len
  aad := (req.aad.declared, asInt req.aad.len)
  tag := if encrypting then none else req.tag.declared.map (List.take gcmTagLen)
  input := req.input.declared
  inputLen := asInt req.input.len

/-- The checks that `crypto_encrypt_impl` and `crypto_decrypt_impl` begin with. -/
def symChecks (lib : Libcrypto) (req : SymReq) : Except Int Cipher :=
  if req.key.isNull || req.input.isNull || !req.out then .error einval
  else
    match cipherLookup req.cipher with
    | none => .error enotsup
    | some cipher =>
      if asInt req.key.len ≠ cipher.keyLen then .error einval
      else if asInt req.iv.len ≠ cipher.ivLen then .error einval
      else if !lib.newCtx then .error enomem
      else .ok cipher

/-- The calls that prepare a context in GCM mode; each error is the same. -/
def gcmReady (lib : Libcrypto) (req : SymReq) (session : Session) : Bool :=
  lib.setCipher session && lib.setIvLen session && lib.setKey session &&
    (session.encrypting || lib.setTag session) &&
    (req.aad.isNull || req.aad.len == 0 || lib.addAad session)

/-- `crypto_encrypt_impl`. -/
def cryptoEncrypt (lib : Libcrypto) (req : SymReq) : Outcome :=
  match symChecks lib req with
  | .error code => .fail code
  | .ok cipher =>
    let session := req.session true cipher
    let first := (lib.update session).1
    let second := (lib.final session).1
    if cipher.isAead then
      if !gcmReady lib req session then .fail einval
      else if req.outCap < req.input.len then .fail enomem
      else if !(lib.update session).2 then ⟨einval, first, [], none, none, none⟩
      else if !(lib.final session).2 then ⟨einval, first ++ second, [], none, none, none⟩
      else if !req.tag.isNull && decide (gcmTagLen ≤ req.tag.len.toNat) then
        match lib.getTag session with
        | none => ⟨einval, first ++ second, [], none, none, none⟩
        | some tag =>
          ⟨0, first ++ second, tag, some (first ++ second).length, some gcmTagLen, none⟩
      else ⟨0, first ++ second, [], some (first ++ second).length, some 0, none⟩
    else if !(lib.setCipher session && lib.setKey session) then .fail einval
    else if req.outCap < req.input.len + 16 then .fail enomem
    else if !(lib.update session).2 then ⟨einval, first, [], none, none, none⟩
    else if !(lib.final session).2 then ⟨einval, first ++ second, [], none, none, none⟩
    else ⟨0, first ++ second, [], some (first ++ second).length, some 0, none⟩

/-- `crypto_decrypt_impl`. -/
def cryptoDecrypt (lib : Libcrypto) (req : SymReq) : Outcome :=
  match symChecks lib req with
  | .error code => .fail code
  | .ok cipher =>
    let session := req.session false cipher
    let first := (lib.update session).1
    let second := (lib.final session).1
    if cipher.isAead && (req.tag.isNull || decide (req.tag.len.toNat < gcmTagLen)) then
      .fail einval
    else if cipher.isAead && !gcmReady lib req session then .fail einval
    else if !cipher.isAead && !(lib.setCipher session && lib.setKey session) then .fail einval
    else if req.outCap < req.input.len then .fail enomem
    else if !(lib.update session).2 then ⟨einval, first, [], none, none, none⟩
    else if !(lib.final session).2 then ⟨eilseq, first ++ second, [], none, none, none⟩
    else ⟨0, first ++ second, [], some (first ++ second).length, some 0, none⟩

/-! ## Keys as text -/

/-- The words that `crypto_import_pem_impl` searches for. -/
def pemWords : List CString :=
  [lit "PRIVATE KEY", lit "PUBLIC KEY", lit "RSA PRIVATE KEY", lit "RSA PUBLIC KEY"]

/-- The last declared byte is zero. -/
def endsWithZero (memory : List UInt8) (len : UInt32) : Bool := memory[len.toNat - 1]? == some 0

/-- `crypto_import_pem_impl`: the search runs over the text in memory. -/
def cryptoImportPem (pem : Input) (expectedAsym isAsym : Bool) : Outcome :=
  match pem.memory with
  | none => .fail einval
  | some memory =>
    if pem.len = 0 then .fail einval
    else if expectedAsym then
      if pemWords.any fun word => (strstr word (bufferText memory)).isSome then
        ⟨0, [], [], none, none, if isAsym then some 1 else none⟩
      else .fail eilseq
    else
      let count := if endsWithZero memory pem.len then pem.len.toNat - 1 else pem.len.toNat
      if count < 16 then .fail einval
      else ⟨0, [], [], none, none, if isAsym then some 0 else none⟩

/-- `crypto_export_pem_impl`; the capacity is behind a pointer. -/
def cryptoExportPem (pem : Input) (out : Bool) (outCap : Option UInt32) : Outcome :=
  match pem.memory, outCap with
  | some memory, some cap =>
    if out = false ∨ pem.len = 0 then .fail einval
    else
      let count := if endsWithZero memory pem.len then pem.len.toNat - 1 else pem.len.toNat
      if cap.toNat < count + 1 then .fail enomem
      else ⟨0, memory.take count ++ [0], [], some (count + 1), none, none⟩
  | _, _ => .fail einval

end HwrunOs.Crypto
