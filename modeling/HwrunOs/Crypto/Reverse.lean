import HwrunOs.Crypto.Bounds

/-!
# Decryption of what was encrypted

`crypto_encrypt_impl` accepts a tag buffer that is missing or too short and then reports no tag;
`crypto_decrypt_impl` refuses such a buffer. In CBC mode the padded text can be one block longer
than an `int` can say. A decryption in GCM mode writes the plaintext before the tag is checked.
-/

namespace HwrunOs.Crypto

open HwrunOs.Bytes

/-! ## The library -/

/-- The calls that prepare the session succeed. -/
structure Libcrypto.Prepares (lib : Libcrypto) (session : Session) : Prop where
  /-- The cipher is accepted. -/
  setCipher : lib.setCipher session = true
  /-- Key and vector are accepted. -/
  setKey : lib.setKey session = true
  /-- The length of the vector is accepted. -/
  setIvLen : session.cipher.isAead = true → lib.setIvLen session = true
  /-- The expected tag is accepted. -/
  setTag : session.cipher.isAead = true → session.encrypting = false → lib.setTag session = true
  /-- The additional data, if there are any, are accepted. -/
  addAad : session.cipher.isAead = true → session.aad.1 = none ∨ session.aad.2 = 0 ∨
    lib.addAad session = true

/-- Every call of the session succeeds. -/
structure Libcrypto.Completes (lib : Libcrypto) (session : Session) : Prop where
  /-- The session is prepared. -/
  prepared : lib.Prepares session
  /-- The update succeeds. -/
  updated : (lib.update session).2 = true
  /-- The final call succeeds. -/
  finished : (lib.final session).2 = true

/-- The session that decrypts a text under the parameters of an encryption. -/
def Session.opening (session : Session) (text : List UInt8) (tag : Option (List UInt8)) :
    Session :=
  { session with
    encrypting := false
    tag := tag
    input := some text
    inputLen := text.length }

/-- Decryption inverts encryption: under the same parameters and the produced tag, it turns what
a complete encryption has written into the plaintext. -/
def Libcrypto.Inverts (lib : Libcrypto) : Prop :=
  ∀ (session : Session) (plain : List UInt8) (tag : Option (List UInt8)),
    session.encrypting = true → session.input = some plain → session.inputLen = plain.length →
    lib.Completes session → (lib.written session).length < 2 ^ 31 →
    (session.cipher.isAead = true → tag.isSome = true ∧ lib.getTag session = tag) →
      lib.Completes (session.opening (lib.written session) tag) ∧
        lib.written (session.opening (lib.written session) tag) = plain

/-- A decryption in GCM mode emits the plaintext with the update, before the tag is checked. -/
def Libcrypto.Emits (lib : Libcrypto) : Prop :=
  ∀ session : Session, session.encrypting = false → session.cipher.isAead = true →
    (lib.update session).2 = true → ((lib.update session).1.length : Int) = session.inputLen

/-! ## Requests -/

/-- The memory of an input after bytes were written to its beginning. -/
def Input.overwrite (input : Input) (bytes : List UInt8) : Input where
  memory := input.memory.map fun memory => bytes ++ memory.drop bytes.length
  len := input.len
  readable := by
    intro changed found
    obtain ⟨memory, held, rfl⟩ := Option.map_eq_some_iff.mp found
    have long := input.readable memory held
    rw [List.length_append, List.length_drop]
    omega

/-- An input of exactly these bytes. -/
def Input.exactly (bytes : List UInt8) : Input where
  memory := some bytes
  len := UInt32.ofNat bytes.length
  readable := by
    intro memory held
    rw [← Option.some.inj held, UInt32.toNat_ofNat']
    exact Nat.mod_le _ _

/-- The request that decrypts what an encryption has left in the output and the tag buffer. -/
def SymReq.reverse (req : SymReq) (done : Outcome) (outCap : UInt32) : SymReq :=
  { req with
    input := Input.exactly done.out
    outCap := outCap
    tag := req.tag.overwrite done.tag }

/-- Decryption into any buffer that is as long as the encrypted text returns the plaintext. -/
def Reverses (lib : Libcrypto) (req : SymReq) : Prop :=
  ∀ outCap : UInt32, (cryptoEncrypt lib req).out.length ≤ outCap.toNat →
    (cryptoDecrypt lib (req.reverse (cryptoEncrypt lib req) outCap)).code = 0 ∧
    some (cryptoDecrypt lib (req.reverse (cryptoEncrypt lib req) outCap)).out =
      req.input.declared ∧
    (cryptoDecrypt lib (req.reverse (cryptoEncrypt lib req) outCap)).outLen =
      some req.input.len.toNat

/-- A decryption in GCM mode fails authentication. -/
def Unauthenticated (lib : Libcrypto) (req : SymReq) : Prop :=
  (∃ cipher, cipherLookup req.cipher = some cipher ∧ cipher.isAead = true) ∧
    (cryptoDecrypt lib req).code = eilseq

/-- The output buffer after an operation. -/
def Outcome.buffer (outcome : Outcome) (before : List UInt8) : List UInt8 :=
  outcome.out ++ before.drop outcome.out.length

/-- A decryption leaves every content of the output buffer and the response as they were. -/
def Withholds (lib : Libcrypto) (req : SymReq) : Prop :=
  (∀ before : List UInt8, before.length = req.outCap.toNat →
    (cryptoDecrypt lib req).buffer before = before) ∧
  (cryptoDecrypt lib req).outLen = none ∧ (cryptoDecrypt lib req).tagLen = none

/-- In GCM mode there is room for the tag; in CBC mode the padded text has a length. -/
def Recoverable (req : SymReq) : Prop :=
  ∃ cipher, cipherLookup req.cipher = some cipher ∧
    if cipher.isAead then req.tag.isNull = false ∧ gcmTagLen ≤ req.tag.len.toNat
    else req.input.len.toNat < 2 ^ 31 - 16

/-! ## Calls -/

/-- The checks hold of the parameters that a request shares with others. -/
theorem symChecks_ok_iff {lib : Libcrypto} {req : SymReq} {cipher : Cipher} :
    symChecks lib req = .ok cipher ↔
      (req.key.isNull = false ∧ req.input.isNull = false ∧ req.out = true) ∧
      cipherLookup req.cipher = some cipher ∧ asInt req.key.len = cipher.keyLen ∧
      asInt req.iv.len = cipher.ivLen ∧ lib.newCtx = true := by
  unfold symChecks
  cases cipherLookup req.cipher with
  | none =>
    simp only [reduceCtorEq, false_and, and_false, iff_false]
    split
    · exact fun other => by cases other
    · exact fun other => by cases other
  | some known =>
    simp only [Option.some.injEq]
    constructor
    · intro checked
      split at checked
      · cases checked
      rename_i present
      split at checked
      · cases checked
      split at checked
      · cases checked
      split at checked
      · cases checked
      obtain rfl := Except.ok.inj checked
      simp_all
    · rintro ⟨⟨key, input, out⟩, rfl, keyLen, ivLen, allocated⟩
      simp [key, input, out, keyLen, ivLen, allocated]

/-- A length is no `int` but zero exactly when it is zero. -/
theorem asInt_zero (len : UInt32) : asInt len = 0 ↔ len = 0 := by
  rw [← UInt32.toNat_inj, UInt32.toNat_zero]
  rcases asInt_cases len with ⟨-, same⟩ | ⟨long, negative⟩
  · omega
  · omega

/-- The calls in GCM mode prepare the session of the request. -/
theorem gcmReady_iff {lib : Libcrypto} {req : SymReq} {encrypting : Bool} {cipher : Cipher}
    (aead : cipher.isAead = true) :
    gcmReady lib req (req.session encrypting cipher) = true ↔
      lib.Prepares (req.session encrypting cipher) := by
  have added : (req.aad.isNull || req.aad.len == 0 || lib.addAad (req.session encrypting cipher))
      = true ↔ req.aad.declared = none ∨ asInt req.aad.len = 0 ∨
        lib.addAad (req.session encrypting cipher) = true := by
    rw [asInt_zero, Input.declared, Option.map_eq_none_iff, Bool.or_eq_true, Bool.or_eq_true,
      Input.isNull, Option.isNone_iff_eq_none, beq_iff_eq, or_assoc]
  constructor
  · intro ready
    simp only [gcmReady, Bool.and_eq_true, added] at ready
    obtain ⟨⟨⟨⟨cipherSet, ivLenSet⟩, keySet⟩, tagSet⟩, aadSet⟩ := ready
    refine ⟨cipherSet, keySet, fun _ => ivLenSet, ?_, fun _ => aadSet⟩
    intro _ decrypting
    have direction : (req.session encrypting cipher).encrypting = encrypting := rfl
    simpa [decrypting] using tagSet
  · intro prepared
    simp only [gcmReady, Bool.and_eq_true, added]
    refine ⟨⟨⟨⟨prepared.setCipher, prepared.setIvLen aead⟩, prepared.setKey⟩, ?_⟩,
      prepared.addAad aead⟩
    cases encrypting with
    | true => rfl
    | false => exact prepared.setTag aead rfl

/-- The calls of an encryption that succeeds. -/
theorem encrypt_completes {lib : Libcrypto} {req : SymReq} {cipher : Cipher}
    (checked : symChecks lib req = .ok cipher) (done : (cryptoEncrypt lib req).code = 0) :
    lib.Completes (req.session true cipher) := by
  cases aead : cipher.isAead with
  | true =>
    obtain ⟨known, same, -, -, -, streamed⟩ := encrypt_done done
    obtain rfl := Except.ok.inj (checked.symm.trans same)
    obtain ⟨-, ready, updated, finished⟩ := streamed aead
    exact ⟨(gcmReady_iff aead).mp ready, updated, finished⟩
  | false =>
    simp only [cryptoEncrypt, checked, aead, Bool.false_eq_true, if_false] at done
    split at done
    · exact absurd done codes_nonzero.1
    rename_i ready
    split at done
    · exact absurd done codes_nonzero.2.1
    split at done
    · exact absurd done codes_nonzero.1
    rename_i updated
    split at done
    · exact absurd done codes_nonzero.1
    rename_i finished
    simp only [Bool.not_eq_true', Bool.not_eq_false, Bool.and_eq_true] at ready updated finished
    have plain : (req.session true cipher).cipher.isAead = false := aead
    refine ⟨⟨ready.1, ready.2, ?_, ?_, ?_⟩, updated, finished⟩
    all_goals simp [plain]

/-- With room for the tag, an encryption in GCM mode that succeeds leaves it there. -/
theorem encrypt_tagged {lib : Libcrypto} {req : SymReq} {cipher : Cipher}
    (checked : symChecks lib req = .ok cipher) (aead : cipher.isAead = true)
    (done : (cryptoEncrypt lib req).code = 0) (present : req.tag.isNull = false)
    (roomy : gcmTagLen ≤ req.tag.len.toNat) :
    lib.getTag (req.session true cipher) = some (cryptoEncrypt lib req).tag := by
  obtain ⟨known, same, -, -, -, streamed⟩ := encrypt_done done
  obtain rfl := Except.ok.inj (checked.symm.trans same)
  obtain ⟨room, ready, updated, finished⟩ := streamed aead
  simp only [cryptoEncrypt, checked, aead, ready, UInt32.not_lt.mpr room, updated, finished,
    present, roomy, decide_true, Bool.not_true, Bool.not_false, Bool.and_true, Bool.false_eq_true,
    if_false, if_true] at done ⊢
  split at done
  · exact absurd done codes_nonzero.1
  · rename_i tag got
    rw [got]

/-- A decryption whose calls all succeed returns what they write. -/
theorem decrypt_completes {lib : Libcrypto} {req : SymReq} {cipher : Cipher}
    (checked : symChecks lib req = .ok cipher)
    (tagged : cipher.isAead = true → req.tag.isNull = false ∧ gcmTagLen ≤ req.tag.len.toNat)
    (completes : lib.Completes (req.session false cipher)) (room : req.input.len ≤ req.outCap) :
    cryptoDecrypt lib req =
      ⟨0, lib.written (req.session false cipher), [],
        some (lib.written (req.session false cipher)).length, some 0, none⟩ := by
  have fits := UInt32.not_lt.mpr room
  rw [← final_written completes.updated]
  cases aead : cipher.isAead with
  | true =>
    obtain ⟨present, roomy⟩ := tagged aead
    have short : ¬ req.tag.len.toNat < gcmTagLen := by omega
    have ready := (gcmReady_iff aead).mpr completes.prepared
    simp [cryptoDecrypt, checked, aead, present, short, ready, fits, completes.updated,
      completes.finished]
  | false =>
    simp [cryptoDecrypt, checked, aead, completes.prepared.setCipher, completes.prepared.setKey,
      fits, completes.updated, completes.finished]

/-- A decryption that succeeds or fails at the end has passed everything before, and has written
what both calls write. -/
theorem decrypt_reached {lib : Libcrypto} {req : SymReq} {cipher : Cipher}
    (checked : symChecks lib req = .ok cipher)
    (reached : (cryptoDecrypt lib req).code = 0 ∨ (cryptoDecrypt lib req).code = eilseq) :
    (cipher.isAead = true → req.tag.isNull = false ∧ gcmTagLen ≤ req.tag.len.toNat) ∧
      req.input.len ≤ req.outCap ∧ (lib.update (req.session false cipher)).2 = true ∧
      (cryptoDecrypt lib req).out = lib.written (req.session false cipher) ∧
      ((cryptoDecrypt lib req).code = eilseq →
        (cryptoDecrypt lib req).outLen = none ∧ (cryptoDecrypt lib req).tagLen = none) := by
  have distinct : (einval ≠ 0 ∧ einval ≠ eilseq) ∧ (enomem ≠ 0 ∧ enomem ≠ eilseq) ∧
      0 ≠ eilseq := by decide
  simp only [cryptoDecrypt, checked] at reached ⊢
  split at reached
  · simp [distinct] at reached
  rename_i tagged
  split at reached
  · simp [distinct] at reached
  rename_i ready
  split at reached
  · simp [distinct] at reached
  rename_i prepared
  split at reached
  · simp [distinct] at reached
  rename_i room
  split at reached
  · simp [distinct] at reached
  rename_i updated
  rw [if_neg tagged, if_neg ready, if_neg prepared, if_neg room, if_neg updated]
  simp only [Bool.and_eq_true, Bool.or_eq_true, decide_eq_true_eq, not_and, not_or,
    Bool.not_eq_true, Nat.not_lt] at tagged
  simp only [Bool.not_eq_true', Bool.not_eq_false] at updated
  refine ⟨tagged, UInt32.not_lt.mp room, updated, ?_, ?_⟩
  · rw [← final_written updated]
    split
    · rfl
    · rfl
  · split
    · exact fun _ => ⟨rfl, rfl⟩
    · exact fun code => absurd code distinct.2.2

/-! ## The way back -/

/-- The declared bytes of an input of exactly these bytes. -/
theorem exactly_declared {bytes : List UInt8} (short : bytes.length < 2 ^ 32) :
    (Input.exactly bytes).len.toNat = bytes.length ∧
      (Input.exactly bytes).declared = some bytes := by
  have length : (Input.exactly bytes).len.toNat = bytes.length := by
    show (UInt32.ofNat bytes.length).toNat = bytes.length
    rw [UInt32.toNat_ofNat', Nat.mod_eq_of_lt short]
  refine ⟨length, ?_⟩
  rw [Input.declared, length]
  show some (bytes.take bytes.length) = some bytes
  rw [List.take_length]

/-- A tag that was written to a buffer with room for it is read back. -/
theorem overwrite_tag {buffer : Input} {tag : List UInt8} (present : buffer.isNull = false)
    (roomy : gcmTagLen ≤ buffer.len.toNat) (size : tag.length = gcmTagLen) :
    (buffer.overwrite tag).declared.map (List.take gcmTagLen) = some tag := by
  cases held : buffer.memory with
  | none => simp [Input.isNull, held] at present
  | some memory =>
    have same : (buffer.overwrite tag).memory = some (tag ++ memory.drop tag.length) := by
      show buffer.memory.map (fun memory => tag ++ memory.drop tag.length) = _
      rw [held, Option.map_some]
    have len : (buffer.overwrite tag).len = buffer.len := rfl
    rw [Input.declared, same, len, Option.map_some, Option.map_some, List.take_take,
      Nat.min_eq_left roomy, List.take_append_of_le_length (Nat.le_of_eq size.symm), ← size,
      List.take_length]

/-- Writing to a buffer moves neither its pointer nor its length. -/
theorem overwrite_isNull (buffer : Input) (tag : List UInt8) :
    (buffer.overwrite tag).isNull = buffer.isNull := by
  rw [Input.isNull, Input.isNull, Input.overwrite, Option.isNone_map]

/-- The reversed request passes the checks that the request has passed. -/
theorem reverse_checked {lib : Libcrypto} {req : SymReq} {cipher : Cipher}
    (checked : symChecks lib req = .ok cipher) (done : Outcome) (outCap : UInt32) :
    symChecks lib (req.reverse done outCap) = .ok cipher := by
  obtain ⟨⟨key, -, out⟩, known, keyLen, ivLen, allocated⟩ := symChecks_ok_iff.mp checked
  exact symChecks_ok_iff.mpr ⟨⟨key, rfl, out⟩, known, keyLen, ivLen, allocated⟩

/-- The session of the reversed request opens what the session of the request has written. -/
theorem reverse_session (req : SymReq) (cipher : Cipher) {done : Outcome} (outCap : UInt32)
    (short : done.out.length < 2 ^ 31) :
    (req.reverse done outCap).session false cipher =
      (req.session true cipher).opening done.out
        ((req.tag.overwrite done.tag).declared.map (List.take gcmTagLen)) := by
  obtain ⟨length, declared⟩ := exactly_declared (Nat.lt_trans short (by decide))
  have same : asInt (Input.exactly done.out).len = done.out.length := by
    rcases asInt_cases (Input.exactly done.out).len with ⟨-, same⟩ | ⟨long, -⟩
    · rw [same, length]
    · omega
  simp only [SymReq.session, SymReq.reverse, Session.opening, declared, same, Bool.false_eq_true,
    if_false]

/-- What an encryption that succeeds was given and has written. -/
theorem encrypt_lengths {lib : Libcrypto} (documented : lib.Documented) {req : SymReq}
    {cipher : Cipher} (checked : symChecks lib req = .ok cipher)
    (completes : lib.Completes (req.session true cipher)) :
    req.input.len.toNat < 2 ^ 31 ∧
      (∃ plain, req.input.declared = some plain ∧ plain.length = req.input.len.toNat) ∧
      (cipher.isAead = true →
        (lib.written (req.session true cipher)).length ≤ req.input.len.toNat) ∧
      (cipher.isAead = false →
        (lib.written (req.session true cipher)).length = (req.input.len.toNat / 16 + 1) * 16) := by
  have length := session_inputLen req true cipher
  rcases asInt_cases req.input.len with ⟨short, same⟩ | ⟨-, negative⟩
  · obtain ⟨⟨-, present, -⟩, -⟩ := symChecks_ok_iff.mp checked
    have declared : req.input.declared.isSome = true := by
      rw [Input.declared, Option.isSome_map]
      simpa [Input.isNull, Option.isNone_iff_eq_none, Option.isSome_iff_ne_none] using present
    obtain ⟨plain, given⟩ := Option.isSome_iff_exists.mp declared
    refine ⟨short, ⟨plain, given, declared_length given⟩, ?_, ?_⟩
    · exact fun aead => streamed_fits documented req (.inr aead)
    · intro blocks
      have padded := (documented.padded (req.session true cipher) rfl blocks (by omega)).2
        completes.updated completes.finished
      omega
  · have refused := documented.negative (req.session true cipher) (by omega)
    have updated := completes.updated
    rw [refused] at updated
    cases updated

/-- A decryption of the output returns the plaintext exactly when the request is recoverable. -/
theorem reverses_iff {lib : Libcrypto} (documented : lib.Documented) (inverts : lib.Inverts)
    (req : SymReq) (done : (cryptoEncrypt lib req).code = 0) :
    Reverses lib req ↔ Recoverable req := by
  obtain ⟨cipher, checked, written, -⟩ := encrypt_done done
  have completes := encrypt_completes checked done
  obtain ⟨short, ⟨plain, given, plainLength⟩, streamed, padded⟩ :=
    encrypt_lengths documented checked completes
  obtain ⟨-, known, -⟩ := symChecks_ok_iff.mp checked
  have back := reverse_checked checked (cryptoEncrypt lib req)
  constructor
  · intro reverses
    have room : (cryptoEncrypt lib req).out.length ≤ (0xFFFFFFFF : UInt32).toNat := by
      rw [show (0xFFFFFFFF : UInt32).toNat = 4294967295 from rfl, written]
      cases aead : cipher.isAead with
      | true => exact Nat.le_trans (streamed aead) (by omega)
      | false => rw [padded aead]; omega
    obtain ⟨opened, -⟩ := reverses 0xFFFFFFFF room
    refine ⟨cipher, known, ?_⟩
    split
    · rename_i aead
      have tagged := (decrypt_reached (back 0xFFFFFFFF) (.inl opened)).1 aead
      exact ⟨(overwrite_isNull req.tag _).symm.trans tagged.1, tagged.2⟩
    · rename_i blocks
      by_contra long
      -- The padded text is as long as the first negative `int`.
      have size : (cryptoEncrypt lib req).out.length = 2 ^ 31 := by
        rw [written, padded (by simpa using blocks)]
        omega
      have updated := (decrypt_reached (back 0xFFFFFFFF) (.inl opened)).2.2.1
      have length := (@exactly_declared (cryptoEncrypt lib req).out (by omega)).1
      have negative : asInt (Input.exactly (cryptoEncrypt lib req).out).len < 0 := by
        rcases asInt_cases (Input.exactly (cryptoEncrypt lib req).out).len with fits | ⟨-, less⟩
        · omega
        · exact less
      have refused := documented.negative
        ((req.reverse (cryptoEncrypt lib req) 0xFFFFFFFF).session false cipher) negative
      rw [refused] at updated
      cases updated
  · rintro ⟨other, same, recoverable⟩ outCap room
    obtain rfl := Option.some.inj (known.symm.trans same)
    have size : (cryptoEncrypt lib req).out.length < 2 ^ 31 := by
      rw [written]
      split at recoverable
      · rename_i aead
        exact Nat.lt_of_le_of_lt (streamed aead) short
      · rename_i blocks
        rw [padded (by simpa using blocks)]
        omega
    have session := reverse_session req cipher outCap size
    have tagged : cipher.isAead = true → req.tag.isNull = false ∧
        gcmTagLen ≤ req.tag.len.toNat := by
      intro aead
      rwa [if_pos aead] at recoverable
    have produced : cipher.isAead = true →
        ((req.tag.overwrite (cryptoEncrypt lib req).tag).declared.map
          (List.take gcmTagLen)).isSome = true ∧
        lib.getTag (req.session true cipher) =
          (req.tag.overwrite (cryptoEncrypt lib req).tag).declared.map (List.take gcmTagLen) := by
      intro aead
      obtain ⟨present, roomy⟩ := tagged aead
      have got := encrypt_tagged checked aead done present roomy
      rw [overwrite_tag present roomy (documented.tag _ _ got)]
      exact ⟨rfl, got⟩
    have inputLen : (req.session true cipher).inputLen = plain.length := by
      rcases asInt_cases req.input.len with ⟨-, fits⟩ | ⟨long, -⟩
      · rw [session_inputLen, fits, plainLength]
      · omega
    obtain ⟨opens, recovered⟩ := inverts (req.session true cipher) plain _ rfl given inputLen
      completes (written ▸ size) produced
    rw [← written, ← session] at opens recovered
    have fits : (req.reverse (cryptoEncrypt lib req) outCap).input.len ≤
        (req.reverse (cryptoEncrypt lib req) outCap).outCap := by
      rw [UInt32.le_iff_toNat_le]
      exact (exactly_declared (Nat.lt_trans size (by decide))).1 ▸ room
    have answer := decrypt_completes (back outCap)
      (fun aead => ⟨(overwrite_isNull req.tag _).trans (tagged aead).1, (tagged aead).2⟩)
      opens fits
    rw [answer, recovered]
    exact ⟨rfl, given.symm, congrArg some plainLength⟩

/-! ## A tag that does not match -/

/-- A decryption in GCM mode that fails authentication has written as many bytes as it was
given and reports nothing. -/
theorem unauthenticated_written {lib : Libcrypto} (documented : lib.Documented)
    (emits : lib.Emits) {req : SymReq} (failed : Unauthenticated lib req) :
    (cryptoDecrypt lib req).out.length = req.input.len.toNat ∧ req.input.len ≤ req.outCap ∧
      (cryptoDecrypt lib req).outLen = none ∧ (cryptoDecrypt lib req).tagLen = none := by
  obtain ⟨⟨cipher, known, aead⟩, code⟩ := failed
  cases checked : symChecks lib req with
  | error other =>
    have codes : ∀ other ∈ [einval, enotsup, enomem], other ≠ eilseq := by decide
    rw [cryptoDecrypt, checked] at code
    exact absurd code (codes other (symChecks_code checked))
  | ok same =>
    obtain ⟨-, found, -⟩ := symChecks_ok_iff.mp checked
    obtain rfl := Option.some.inj (known.symm.trans found)
    obtain ⟨-, room, updated, written, unreported⟩ := decrypt_reached checked (.inr code)
    have emitted := emits (req.session false cipher) rfl aead updated
    have bound := @streamed_fits lib documented req false cipher (.inl rfl)
    have inputLen := session_inputLen req false cipher
    -- The update has written all there is, so the final call adds nothing.
    have whole : (lib.written (req.session false cipher)).length = req.input.len.toNat := by
      have first := update_written lib (req.session false cipher)
      rcases asInt_cases req.input.len with ⟨-, fits⟩ | ⟨-, negative⟩
      · omega
      · omega
    rw [written]
    exact ⟨whole, room, unreported code⟩

/-- Such a decryption leaves the buffer alone exactly when it was given nothing. -/
theorem withholds_iff {lib : Libcrypto} (documented : lib.Documented) (emits : lib.Emits)
    (req : SymReq) (failed : Unauthenticated lib req) :
    Withholds lib req ↔ req.input.len = 0 := by
  obtain ⟨length, room, outLen, tagLen⟩ := unauthenticated_written documented emits failed
  rw [UInt32.le_iff_toNat_le] at room
  constructor
  · rintro ⟨untouched, -⟩
    rw [← UInt32.toNat_inj, UInt32.toNat_zero, ← length]
    cases held : (cryptoDecrypt lib req).out with
    | nil => rfl
    | cons byte rest =>
      rw [held, List.length_cons] at length
      obtain ⟨more, cap⟩ := Nat.exists_eq_add_of_lt (show 0 < req.outCap.toNat by omega)
      have distinct : (if byte = 0 then (1 : UInt8) else 0) ≠ byte := by
        split
        · rename_i zero
          rw [zero]
          decide
        · rename_i other
          exact fun same => other same.symm
      have kept := untouched (List.replicate req.outCap.toNat (if byte = 0 then 1 else 0))
        List.length_replicate
      rw [Outcome.buffer, held, show req.outCap.toNat = more + 1 by omega,
        List.replicate_succ, List.cons_append] at kept
      exact absurd (List.cons.inj kept).1.symm distinct
  · intro empty
    have nothing : (cryptoDecrypt lib req).out = [] := by
      rw [← List.length_eq_zero_iff, length, empty]
      rfl
    refine ⟨?_, outLen, tagLen⟩
    intro before _
    rw [Outcome.buffer, nothing, List.nil_append, List.length_nil, List.drop_zero]

/-- What is encrypted with success can be decrypted exactly when it is recoverable, and a
decryption that fails authentication keeps its output to itself exactly when it has none. -/
theorem reversal_iff (lib : Libcrypto) (documented : lib.Documented) (inverts : lib.Inverts)
    (emits : lib.Emits) (req : SymReq) :
    ((cryptoEncrypt lib req).code = 0 → (Reverses lib req ↔ Recoverable req)) ∧
      (Unauthenticated lib req → (Withholds lib req ↔ req.input.len = 0)) :=
  ⟨fun done => reverses_iff documented inverts req done,
    fun failed => withholds_iff documented emits req failed⟩

/-! ## A published vector -/

/-- Sixteen zero bytes: the key and the plaintext of the vector. -/
def zeroBlock : List UInt8 := List.replicate 16 0

/-- The encrypted block under AES-128 in GCM mode with a zero vector. -/
def zeroSealed : List UInt8 :=
  [0x03, 0x88, 0xda, 0xce, 0x60, 0xb6, 0xa3, 0x92, 0xf3, 0x28, 0xc2, 0xb9, 0x71, 0xb2, 0xfe, 0x78]

/-- Its tag without additional data. -/
def zeroTag : List UInt8 :=
  [0xab, 0x6e, 0x47, 0xd4, 0x2c, 0xec, 0x13, 0xbd, 0xf5, 0x3a, 0x67, 0xb2, 0x12, 0x57, 0xbd, 0xdf]

/-- The session has the parameters of the vector and this input. -/
def Session.ofVector (session : Session) (input : List UInt8) : Bool :=
  decide (session.cipher = .aes128Gcm ∧ session.key = some zeroBlock ∧
    session.iv = some (List.replicate 12 0) ∧ session.aad = (none, 0) ∧
    session.input = some input ∧ session.inputLen = 16)

/-- A library that knows this vector and refuses every other session. -/
def oneVector : Libcrypto where
  newCtx := true
  digest _ _ := none
  hmac _ _ _ _ := none
  setCipher _ := true
  setIvLen _ := true
  setKey _ := true
  setTag _ := true
  addAad _ := true
  update session :=
    if session.encrypting && session.ofVector zeroBlock then (zeroSealed, true)
    else if !session.encrypting && session.ofVector zeroSealed then (zeroBlock, true)
    else ([], false)
  final session := ([], session.encrypting || decide (session.tag = some zeroTag))
  getTag session := if session.ofVector zeroBlock then some zeroTag else none

/-- What the library writes for the vector. -/
theorem oneVector_update (session : Session) :
    (session.encrypting = true ∧ session.ofVector zeroBlock = true ∧
        oneVector.update session = (zeroSealed, true)) ∨
      (session.encrypting = false ∧ session.ofVector zeroSealed = true ∧
        oneVector.update session = (zeroBlock, true)) ∨
      oneVector.update session = ([], false) := by
  simp only [oneVector]
  split
  · rename_i sealing
    simp only [Bool.and_eq_true] at sealing
    exact .inl ⟨sealing.1, sealing.2, rfl⟩
  split
  · rename_i opening
    simp only [Bool.and_eq_true, Bool.not_eq_true'] at opening
    exact .inr (.inl ⟨opening.1, opening.2, rfl⟩)
  · exact .inr (.inr rfl)

/-- The parameters of the vector. -/
theorem ofVector_iff {session : Session} {input : List UInt8} :
    session.ofVector input = true ↔ session.cipher = .aes128Gcm ∧ session.key = some zeroBlock ∧
      session.iv = some (List.replicate 12 0) ∧ session.aad = (none, 0) ∧
      session.input = some input ∧ session.inputLen = 16 := by
  rw [Session.ofVector, decide_eq_true_eq]

/-- A session of the vector writes one block, and any other session writes nothing. -/
theorem oneVector_written (session : Session) :
    ((oneVector.written session).length = 16 ∧ session.inputLen = 16 ∧
        session.cipher = .aes128Gcm) ∨
      (oneVector.written session = [] ∧ (oneVector.update session).2 = false) := by
  rcases oneVector_update session with ⟨-, known, same⟩ | ⟨-, known, same⟩ | same
  · obtain ⟨cipher, -, -, -, -, length⟩ := ofVector_iff.mp known
    left
    rw [Libcrypto.written, same]
    exact ⟨rfl, length, cipher⟩
  · obtain ⟨cipher, -, -, -, -, length⟩ := ofVector_iff.mp known
    left
    rw [Libcrypto.written, same]
    exact ⟨rfl, length, cipher⟩
  · right
    rw [Libcrypto.written, same]
    exact ⟨rfl, rfl⟩

/-- The library does what is documented. -/
theorem oneVector_documented : oneVector.Documented where
  digest := by
    intro _ _ _ digested
    cases digested
  hmac := by
    intro _ _ _ _ _ digested
    cases digested
  negative := by
    intro session negative
    rcases oneVector_update session with ⟨-, known, -⟩ | ⟨-, known, -⟩ | same
    · have length := (ofVector_iff.mp known).2.2.2.2.2
      omega
    · have length := (ofVector_iff.mp known).2.2.2.2.2
      omega
    · exact same
  padded := by
    intro session _ blocks positive
    rcases oneVector_written session with ⟨-, -, cipher⟩ | ⟨nothing, refused⟩
    · rw [cipher] at blocks
      cases blocks
    · rw [nothing, refused]
      refine ⟨?_, fun updated => by cases updated⟩
      show ((0 : Nat) : Int) ≤ _
      omega
  streamed := by
    intro session _ positive
    rcases oneVector_written session with ⟨block, length, -⟩ | ⟨nothing, -⟩
    · omega
    · rw [nothing]
      exact positive
  tag := by
    intro session bytes got
    simp only [oneVector] at got
    split at got
    · rw [← Option.some.inj got]
      rfl
    · cases got

/-- The library decrypts what it has encrypted. -/
theorem oneVector_inverts : oneVector.Inverts := by
  intro session plain tag encrypting given inputLen completes _ produced
  rcases oneVector_update session with ⟨-, known, same⟩ | ⟨opening, -⟩ | refused
  · obtain ⟨cipher, key, iv, aad, input, length⟩ := ofVector_iff.mp known
    obtain rfl := Option.some.inj (input.symm.trans given)
    have written : oneVector.written session = zeroSealed := by
      rw [Libcrypto.written, same]
      rfl
    have tagged : tag = some zeroTag := by
      rw [← (produced (by rw [cipher]; rfl)).2]
      exact if_pos known
    have opened : oneVector.update (session.opening zeroSealed tag) = (zeroBlock, true) := by
      have opens : (session.opening zeroSealed tag).ofVector zeroSealed = true :=
        ofVector_iff.mpr ⟨cipher, key, iv, aad, rfl, rfl⟩
      have decrypting : (session.opening zeroSealed tag).encrypting = false := rfl
      simp [oneVector, opens, decrypting]
    have finished : oneVector.final (session.opening zeroSealed tag) = ([], true) := by
      show (([] : List UInt8), false || decide (tag = some zeroTag)) = _
      simp [tagged]
    rw [written]
    refine ⟨⟨⟨rfl, rfl, fun _ => rfl, fun _ _ => rfl, fun _ => .inr (.inr rfl)⟩, ?_, ?_⟩, ?_⟩
    · rw [opened]
    · rw [finished]
    · rw [Libcrypto.written, opened, finished]
      rfl
  · rw [encrypting] at opening
    cases opening
  · have updated := completes.updated
    rw [refused] at updated
    cases updated

/-- The library emits the plaintext with the update. -/
theorem oneVector_emits : oneVector.Emits := by
  intro session _ _ updated
  rcases oneVector_update session with ⟨-, known, same⟩ | ⟨-, known, same⟩ | refused
  · rw [same, (ofVector_iff.mp known).2.2.2.2.2]
    rfl
  · rw [same, (ofVector_iff.mp known).2.2.2.2.2]
    rfl
  · rw [refused] at updated
    cases updated

/-- A pointer to zero bytes, all of them declared. -/
def zeros (count : Nat) : Input := Input.exactly (List.replicate count 0)

/-- No pointer. -/
def noInput : Input where
  memory := none
  len := 0
  readable := by
    intro bytes held
    cases held

/-- The request of the vector: encryption of an input into sixteen bytes. -/
def vectorRequest (input tag : Input) : SymReq where
  cipher := 2
  key := zeros 16
  iv := zeros 12
  aad := noInput
  input := input
  out := true
  outCap := 16
  tag := tag

/-- With a tag buffer the vector is decrypted. -/
theorem vector_reverses :
    (cryptoEncrypt oneVector (vectorRequest (zeros 16) (zeros 16))).code = 0 ∧
      Reverses oneVector (vectorRequest (zeros 16) (zeros 16)) := by
  have done : (cryptoEncrypt oneVector (vectorRequest (zeros 16) (zeros 16))).code = 0 := by
    decide +kernel
  refine ⟨done, ?_⟩
  have settled := (reversal_iff oneVector oneVector_documented oneVector_inverts oneVector_emits
    (vectorRequest (zeros 16) (zeros 16))).1 done
  exact settled.mpr ⟨.aes128Gcm, rfl, by decide +kernel⟩

/-- Without a tag buffer the encrypted block is lost, and a wrong tag releases the plaintext. -/
theorem vector_lost :
    (¬ ∀ lib : Libcrypto, lib.Documented → lib.Inverts → lib.Emits → ∀ req : SymReq,
      (cryptoEncrypt lib req).code = 0 → Reverses lib req) ∧
    ¬ ∀ lib : Libcrypto, lib.Documented → lib.Inverts → lib.Emits → ∀ req : SymReq,
      Unauthenticated lib req → Withholds lib req := by
  constructor
  · intro always
    have done : (cryptoEncrypt oneVector (vectorRequest (zeros 16) noInput)).code = 0 := by
      decide +kernel
    have reverses := always oneVector oneVector_documented oneVector_inverts oneVector_emits _ done
    have opened := (reverses 16 (by decide +kernel)).1
    revert opened
    decide +kernel
  · intro always
    have code : (cryptoDecrypt oneVector
        (vectorRequest (Input.exactly zeroSealed) (zeros 16))).code = eilseq := by decide +kernel
    have withholds := always oneVector oneVector_documented oneVector_inverts oneVector_emits _
      ⟨⟨.aes128Gcm, rfl, rfl⟩, code⟩
    have kept := withholds.1 (List.replicate 16 1) (by decide +kernel)
    revert kept
    decide +kernel

end HwrunOs.Crypto
