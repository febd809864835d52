import HwrunOs.Crypto.Operations

/-!
# Bounds of the CRYPTO operations

An operation is contained when it stays within the declared capacities, depends on the declared
bytes of its inputs only and reports an error when its result does not fit. Every operation is
contained except for three cases: a keyed digest that is longer than its buffer, an encryption
in GCM mode without room for its tag, and a search for a key word that no declared byte ends.
-/

namespace HwrunOs.Crypto

open HwrunOs.Bytes

/-! ## Requests -/

/-- A request to one of the operations. -/
inductive Request where
  /-- `hash`. -/
  | hash (req : HashReq)
  /-- `hmac`. -/
  | hmac (req : HmacReq)
  /-- `encrypt`. -/
  | encrypt (req : SymReq)
  /-- `decrypt`. -/
  | decrypt (req : SymReq)
  /-- `import_pem`. -/
  | importPem (pem : Input) (expectedAsym isAsym : Bool)
  /-- `export_pem`. -/
  | exportPem (pem : Input) (out : Bool) (outCap : Option UInt32)

/-- The outcome of a request. -/
def perform (lib : Libcrypto) : Request → Outcome
  | .hash req => cryptoHash lib req
  | .hmac req => cryptoHmac lib req
  | .encrypt req => cryptoEncrypt lib req
  | .decrypt req => cryptoDecrypt lib req
  | .importPem pem expectedAsym isAsym => cryptoImportPem pem expectedAsym isAsym
  | .exportPem pem out outCap => cryptoExportPem pem out outCap

/-- Bytes that fit the output. -/
def Request.outRoom : Request → Nat
  | .hash req => req.outCap.toNat
  | .hmac req => req.outCap.toNat
  | .encrypt req | .decrypt req => req.outCap.toNat
  | .importPem .. => 0
  | .exportPem _ _ outCap => (outCap.map UInt32.toNat).getD 0

/-- Bytes that fit the tag buffer of an encryption; a null pointer has no room. -/
def Request.tagRoom : Request → Nat
  | .encrypt req => if req.tag.isNull then 0 else req.tag.len.toNat
  | _ => 0

/-- The request of a cipher without what follows its declared bytes. -/
def SymReq.cut (req : SymReq) : SymReq :=
  { req with
    key := req.key.cut, iv := req.iv.cut, aad := req.aad.cut, input := req.input.cut,
    tag := req.tag.cut }

/-- The request without what follows the declared bytes of its inputs. -/
def Request.cut : Request → Request
  | .hash req => .hash { req with data := req.data.cut }
  | .hmac req => .hmac { req with key := req.key.cut, data := req.data.cut }
  | .encrypt req => .encrypt req.cut
  | .decrypt req => .decrypt req.cut
  | .importPem pem expectedAsym isAsym => .importPem pem.cut expectedAsym isAsym
  | .exportPem pem out outCap => .exportPem pem.cut out outCap

/-- A buffer for a tag. -/
def tagBuffer : Input where
  memory := some (List.replicate 16 0)
  len := 16
  readable := by
    intro bytes found
    obtain rfl := Option.some.inj found
    decide

/-- The request with room for any result. -/
def Request.roomy : Request → Request
  | .hash req => .hash { req with outCap := 0xFFFFFFFF }
  | .hmac req => .hmac { req with outCap := 0xFFFFFFFF }
  | .encrypt req => .encrypt { req with outCap := 0xFFFFFFFF, tag := tagBuffer }
  | .decrypt req => .decrypt { req with outCap := 0xFFFFFFFF }
  | .importPem pem expectedAsym isAsym => .importPem pem expectedAsym isAsym
  | .exportPem pem out outCap => .exportPem pem out (outCap.map fun _ => 0xFFFFFFFF)

/-! ## The property -/

/-- The writes stay within the capacities. -/
def Bounded (lib : Libcrypto) (request : Request) : Prop :=
  (perform lib request).out.length ≤ request.outRoom ∧
    (perform lib request).tag.length ≤ request.tagRoom

/-- The outcome depends on the declared bytes only. -/
def DeclaredOnly (lib : Libcrypto) (request : Request) : Prop :=
  ∀ other : Request, other.cut = request.cut → perform lib other = perform lib request

/-- A result that does not fit is an error. -/
def RefusesOverflow (lib : Libcrypto) (request : Request) : Prop :=
  (perform lib request.roomy).code = 0 →
    request.outRoom < (perform lib request.roomy).out.length ∨
      request.tagRoom < (perform lib request.roomy).tag.length →
    (perform lib request).code ≠ 0

/-- The request is contained. -/
structure Contained (lib : Libcrypto) (request : Request) : Prop where
  /-- The writes stay within the capacities. -/
  bounded : Bounded lib request
  /-- The outcome depends on the declared bytes only. -/
  declared : DeclaredOnly lib request
  /-- A result that does not fit is an error. -/
  refuses : RefusesOverflow lib request

/-! ## The condition -/

/-- The library carries out the encryption in GCM mode of a request that passes the checks. -/
def Seals (lib : Libcrypto) (req : SymReq) (cipher : Cipher) : Prop :=
  let session := req.session true cipher
  gcmReady lib req session = true ∧ (lib.update session).2 = true ∧
    (lib.final session).2 = true ∧ (lib.getTag session).isSome = true

/-- The cases in which an operation is contained. -/
def Safe (lib : Libcrypto) : Request → Prop
  | .hmac req => ∀ data md, req.data.declared = some data → hashMd req.algo = some md →
      req.out = true → (lib.hmac md req.key.declared (asInt req.key.len) data).isSome = true →
      md.size ≤ req.outCap.toNat
  | .encrypt req => ∀ cipher, symChecks lib req = .ok cipher → cipher.isAead = true →
      req.input.len ≤ req.outCap → Seals lib req cipher →
      gcmTagLen ≤ (Request.encrypt req).tagRoom
  | .importPem pem expectedAsym _ => expectedAsym = true → ∀ bytes, pem.declared = some bytes →
      bytes ≠ [] → (0 : UInt8) ∈ bytes ∨ lit "PRIVATE KEY" <:+: bytes ∨ lit "PUBLIC KEY" <:+: bytes
  | _ => True

/-! ## Declared bytes -/

/-- Cutting an input keeps its declared bytes. -/
@[simp] theorem declared_cut (input : Input) : input.cut.declared = input.declared := by
  cases shape : input.memory with
  | none => simp [Input.declared, Input.cut, shape]
  | some memory => simp [Input.declared, Input.cut, shape, List.take_take]

/-- Cutting an input keeps its length. -/
@[simp] theorem len_cut (input : Input) : input.cut.len = input.len := rfl

/-- Cutting an input keeps a null pointer. -/
@[simp] theorem isNull_cut (input : Input) : input.cut.isNull = input.isNull := by
  simp [Input.isNull, Input.cut, Input.declared]

/-- The declared bytes are as many as declared. -/
theorem declared_length {input : Input} {bytes : List UInt8}
    (declared : input.declared = some bytes) : bytes.length = input.len.toNat := by
  obtain ⟨memory, held, rfl⟩ := Option.map_eq_some_iff.mp declared
  rw [List.length_take, Nat.min_eq_left (input.readable memory held)]

/-- The request searches its text for a key word. -/
def Request.searches : Request → Bool
  | .importPem _ expectedAsym _ => expectedAsym
  | _ => false

/-- The last declared byte is one of the declared bytes. -/
theorem endsWithZero_cut {input : Input} {memory : List UInt8} (filled : input.len ≠ 0) :
    endsWithZero (memory.take input.len.toNat) input.len = endsWithZero memory input.len := by
  have positive : 0 < input.len.toNat := UInt32.pos_iff_ne_zero.mpr filled
  rw [endsWithZero, endsWithZero, List.getElem?_take, if_pos (by omega)]

/-- The library is told the declared bytes. -/
@[simp] theorem session_cut (req : SymReq) (encrypting : Bool) (cipher : Cipher) :
    req.cut.session encrypting cipher = req.session encrypting cipher := by
  simp [SymReq.session, SymReq.cut]

/-- The checks do not look at the memory. -/
theorem symChecks_cut (lib : Libcrypto) (req : SymReq) :
    symChecks lib req.cut = symChecks lib req := by
  simp only [symChecks, SymReq.cut, isNull_cut, len_cut]
  rfl

/-- Preparing a context needs the declared bytes only. -/
theorem gcmReady_cut (lib : Libcrypto) (req : SymReq) (session : Session) :
    gcmReady lib req.cut session = gcmReady lib req session := by
  simp only [gcmReady, SymReq.cut, isNull_cut, len_cut]

/-- A request that does not search is performed on its declared bytes. -/
theorem perform_cut (lib : Libcrypto) {request : Request} (plain : request.searches = false) :
    perform lib request.cut = perform lib request := by
  cases request with
  | hash req => simp [perform, Request.cut, cryptoHash]
  | hmac req => simp [perform, Request.cut, cryptoHmac]
  | encrypt req =>
    show cryptoEncrypt lib req.cut = cryptoEncrypt lib req
    have tag : req.cut.tag.isNull = req.tag.isNull := isNull_cut _
    simp only [cryptoEncrypt, symChecks_cut, session_cut, gcmReady_cut, tag]
    rfl
  | decrypt req =>
    show cryptoDecrypt lib req.cut = cryptoDecrypt lib req
    have tag : req.cut.tag.isNull = req.tag.isNull := isNull_cut _
    simp only [cryptoDecrypt, symChecks_cut, session_cut, gcmReady_cut, tag]
    rfl
  | importPem pem expectedAsym isAsym =>
    obtain rfl : expectedAsym = false := plain
    show cryptoImportPem pem.cut false isAsym = cryptoImportPem pem false isAsym
    cases shape : pem.memory with
    | none => simp [cryptoImportPem, Input.cut, Input.declared, shape]
    | some memory =>
      by_cases none_ : pem.len = 0
      · simp [cryptoImportPem, Input.cut, Input.declared, shape, none_]
      · simp [cryptoImportPem, Input.cut, Input.declared, shape, endsWithZero_cut none_]
  | exportPem pem out outCap =>
    show cryptoExportPem pem.cut out outCap = cryptoExportPem pem out outCap
    cases shape : pem.memory with
    | none => simp [cryptoExportPem, Input.cut, Input.declared, shape]
    | some memory =>
      cases outCap with
      | none => simp [cryptoExportPem, Input.cut, Input.declared, shape]
      | some cap =>
        by_cases none_ : pem.len = 0
        · simp [cryptoExportPem, Input.cut, Input.declared, shape, none_]
        · have inside : (if endsWithZero memory pem.len = true then pem.len.toNat - 1
              else pem.len.toNat) ≤ pem.len.toNat := by
            split <;> omega
          simp [cryptoExportPem, Input.cut, Input.declared, shape, endsWithZero_cut none_,
            List.take_take, Nat.min_eq_left inside]

/-- A request that does not search depends on the declared bytes only. -/
theorem declaredOnly_plain (lib : Libcrypto) {request : Request}
    (plain : request.searches = false) : DeclaredOnly lib request := by
  have kept (request : Request) : request.cut.searches = request.searches := by
    cases request <;> rfl
  intro other same
  have otherPlain : other.searches = false := by rw [← kept, same, kept, plain]
  rw [← perform_cut lib otherPlain, same, perform_cut lib plain]

/-! ## Lengths -/

/-- A length as an `int` is the length itself, or negative from 2^31 on. -/
theorem asInt_cases (len : UInt32) :
    (len.toNat < 2 ^ 31 ∧ asInt len = len.toNat) ∨ (2 ^ 31 ≤ len.toNat ∧ asInt len < 0) := by
  have bound := len.toNat_lt
  rw [asInt]
  split
  · left
    omega
  · right
    omega

/-- The length that the library is told. -/
theorem session_inputLen (req : SymReq) (encrypting : Bool) (cipher : Cipher) :
    (req.session encrypting cipher).inputLen = asInt req.input.len := rfl

/-- Every length is within the largest capacity. -/
theorem len_le_max (len : UInt32) : len ≤ 0xFFFFFFFF := by
  have bound := len.toNat_lt
  rw [UInt32.le_iff_toNat_le, show (0xFFFFFFFF : UInt32).toNat = 4294967295 from rfl]
  omega

/-- The codes of failing calls are not zero. -/
theorem codes_nonzero : einval ≠ 0 ∧ enomem ≠ 0 ∧ eilseq ≠ 0 := by decide

/-- A failing operation writes nothing. -/
@[simp] theorem fail_out (code : Int) : (Outcome.fail code).out = [] := rfl

/-- A failing operation writes no tag. -/
@[simp] theorem fail_tag (code : Int) : (Outcome.fail code).tag = [] := rfl

/-- A failing operation returns its code. -/
@[simp] theorem fail_code (code : Int) : (Outcome.fail code).code = code := rfl

/-- What the first call writes is written. -/
theorem update_written (lib : Libcrypto) (session : Session) :
    (lib.update session).1.length ≤ (lib.written session).length := by
  rw [Libcrypto.written, List.length_append]
  omega

/-- What both calls write is written. -/
theorem final_written {lib : Libcrypto} {session : Session}
    (updated : (lib.update session).2 = true) :
    (lib.update session).1 ++ (lib.final session).1 = lib.written session := by
  rw [Libcrypto.written, if_pos updated]

/-- A session with a negative length writes nothing. -/
theorem negative_written {lib : Libcrypto} (documented : lib.Documented) {session : Session}
    (negative : session.inputLen < 0) : lib.written session = [] := by
  rw [Libcrypto.written, documented.negative session negative]
  rfl

/-- A stream writes at most its input. -/
theorem streamed_fits {lib : Libcrypto} (documented : lib.Documented) (req : SymReq)
    {encrypting : Bool} {cipher : Cipher} (streamed : encrypting = false ∨ cipher.isAead = true) :
    (lib.written (req.session encrypting cipher)).length ≤ req.input.len.toNat := by
  rcases asInt_cases req.input.len with ⟨-, same⟩ | ⟨-, negative⟩
  · have length := (session_inputLen req encrypting cipher).trans same
    have written := documented.streamed (req.session encrypting cipher) streamed (by omega)
    omega
  · rw [← session_inputLen] at negative
    rw [negative_written documented negative]
    exact Nat.zero_le _

/-- With the room that is asked for, an encryption in CBC mode stays within it. -/
theorem padded_fits {lib : Libcrypto} (documented : lib.Documented) (req : SymReq)
    {cipher : Cipher} (blocks : cipher.isAead = false)
    (room : ¬ req.outCap < req.input.len + 16) :
    (lib.written (req.session true cipher)).length ≤ req.outCap.toNat := by
  rcases asInt_cases req.input.len with ⟨short, same⟩ | ⟨-, negative⟩
  · have length := (session_inputLen req true cipher).trans same
    have written := (documented.padded (req.session true cipher) rfl blocks (by omega)).1
    rw [UInt32.lt_iff_toNat_lt, UInt32.toNat_add, show (16 : UInt32).toNat = 16 from rfl] at room
    omega
  · rw [← session_inputLen] at negative
    rw [negative_written documented negative]
    exact Nat.zero_le _

/-! ## Digests -/

/-- What `hash` does: an error without output, or the digest when it fits. -/
theorem cryptoHash_cases (lib : Libcrypto) (req : HashReq) :
    (∃ code, code ≠ 0 ∧ cryptoHash lib req = .fail code) ∨
    ∃ data md bytes, req.data.declared = some data ∧ hashMd req.algo = some md ∧
      lib.digest md data = some bytes ∧ md.size ≤ req.outCap.toNat ∧
      cryptoHash lib req = ⟨0, bytes, [], some bytes.length, none, none⟩ := by
  unfold cryptoHash
  cases req.data.declared with
  | none => exact .inl ⟨einval, by decide, rfl⟩
  | some data =>
    dsimp only
    cases hashMd req.algo with
    | none => exact .inl ⟨enotsup, by decide, rfl⟩
    | some md =>
      dsimp only
      split
      · exact .inl ⟨enotsup, by decide, rfl⟩
      split
      · exact .inl ⟨enomem, by decide, rfl⟩
      rename_i room
      split
      · exact .inl ⟨enomem, by decide, rfl⟩
      cases digested : lib.digest md data with
      | none => exact .inl ⟨eio, by decide, rfl⟩
      | some bytes =>
        have fits : md.size ≤ req.outCap.toNat := by omega
        exact .inr ⟨data, md, bytes, rfl, rfl, digested, fits, rfl⟩

/-- A digest is contained. -/
theorem hash_contained {lib : Libcrypto} (documented : lib.Documented) (req : HashReq) :
    Contained lib (.hash req) := by
  refine ⟨?_, declaredOnly_plain lib rfl, ?_⟩
  · show (cryptoHash lib req).out.length ≤ req.outCap.toNat ∧ (cryptoHash lib req).tag.length ≤ 0
    rcases cryptoHash_cases lib req with ⟨code, -, failed⟩ | ⟨data, md, bytes, -, -, digested,
      fits, done⟩
    · rw [failed]
      exact ⟨Nat.zero_le _, Nat.le_refl _⟩
    · have size := documented.digest md data bytes digested
      rw [done]
      exact ⟨size ▸ fits, Nat.le_refl _⟩
  · show (cryptoHash lib { req with outCap := 0xFFFFFFFF }).code = 0 →
      req.outCap.toNat < (cryptoHash lib { req with outCap := 0xFFFFFFFF }).out.length ∨
        0 < (cryptoHash lib { req with outCap := 0xFFFFFFFF }).tag.length →
      (cryptoHash lib req).code ≠ 0
    intro succeeded large
    rcases cryptoHash_cases lib { req with outCap := 0xFFFFFFFF } with ⟨code, nonzero, failed⟩ |
      ⟨data, md, bytes, input, known, digested, -, done⟩
    · rw [failed] at succeeded
      exact absurd succeeded nonzero
    rw [done] at large
    rcases cryptoHash_cases lib req with ⟨code, nonzero, failed⟩ |
      ⟨data', md', bytes', input', known', -, fits, -⟩
    · rw [failed]
      exact nonzero
    · obtain rfl := Option.some.inj (known.symm.trans known')
      have size := documented.digest md data bytes digested
      rcases large with long | tag
      · dsimp only at long
        omega
      · cases tag

/-- What `hmac` does, whatever the capacity. -/
theorem cryptoHmac_cases (lib : Libcrypto) (req : HmacReq) :
    (∃ code, code ≠ 0 ∧ cryptoHmac lib req = .fail code ∧
      ∀ data md, req.data.declared = some data → hashMd req.algo = some md → req.out = true →
        (lib.hmac md req.key.declared (asInt req.key.len) data).isSome = false) ∨
    ∃ data md bytes, req.data.declared = some data ∧ hashMd req.algo = some md ∧
      req.out = true ∧ lib.hmac md req.key.declared (asInt req.key.len) data = some bytes ∧
      cryptoHmac lib req = ⟨0, bytes, [], some bytes.length, none, none⟩ := by
  unfold cryptoHmac
  cases req.data.declared with
  | none => exact .inl ⟨einval, by decide, rfl, by simp⟩
  | some data =>
    dsimp only
    cases hashMd req.algo with
    | none => exact .inl ⟨enotsup, by decide, rfl, by simp⟩
    | some md =>
      dsimp only
      split
      · rename_i null
        exact .inl ⟨einval, by decide, rfl, by simp [null]⟩
      rename_i out
      cases digested : lib.hmac md req.key.declared (asInt req.key.len) data with
      | none =>
        refine .inl ⟨eio, by decide, rfl, ?_⟩
        rintro _ _ ⟨⟩ ⟨⟩ -
        rw [digested]
        rfl
      | some bytes =>
        exact .inr ⟨data, md, bytes, rfl, rfl, by simpa using out, digested, rfl⟩

/-- A keyed digest is contained exactly when it fits or the library refuses. -/
theorem hmac_contained_iff {lib : Libcrypto} (documented : lib.Documented) (req : HmacReq) :
    Contained lib (.hmac req) ↔ Safe lib (.hmac req) := by
  have blind : perform lib (Request.hmac req).roomy = perform lib (.hmac req) := rfl
  rcases cryptoHmac_cases lib req with ⟨code, nonzero, failed, refused⟩ |
    ⟨data, md, bytes, input, known, out, digested, done⟩
  · have result : perform lib (.hmac req) = .fail code := failed
    constructor
    · intro _ data md input known out accepted
      rw [refused data md input known out] at accepted
      cases accepted
    · intro _
      refine ⟨?_, declaredOnly_plain lib rfl, ?_⟩
      · rw [Bounded, result]
        exact ⟨Nat.zero_le _, Nat.zero_le _⟩
      · intro succeeded
        rw [blind, result] at succeeded
        exact absurd succeeded nonzero
  · have result : perform lib (.hmac req) = ⟨0, bytes, [], some bytes.length, none, none⟩ := done
    have size := documented.hmac md _ _ data bytes digested
    constructor
    · intro contained data' md' input' known' _ _
      obtain rfl := Option.some.inj (known.symm.trans known')
      have bounded := contained.bounded.1
      rw [result] at bounded
      exact size ▸ bounded
    · intro safe
      have fits : md.size ≤ req.outCap.toNat :=
        safe data md input known out (by rw [digested]; rfl)
      refine ⟨?_, declaredOnly_plain lib rfl, ?_⟩
      · rw [Bounded, result]
        exact ⟨size ▸ fits, Nat.zero_le _⟩
      · intro _ large
        rw [blind, result] at large
        rcases large with long | tag
        · have room : (Request.hmac req).outRoom = req.outCap.toNat := rfl
          dsimp only at long
          omega
        · exact absurd tag (Nat.not_lt_zero _)

/-! ## Ciphers -/

/-- The codes of the checks. -/
theorem symChecks_code {lib : Libcrypto} {req : SymReq} {code : Int}
    (checked : symChecks lib req = .error code) : code ∈ [einval, enotsup, enomem] := by
  unfold symChecks at checked
  split at checked
  · simp [← Except.error.inj checked]
  split at checked
  · simp [← Except.error.inj checked]
  split_ifs at checked
  · simp [← Except.error.inj checked]
  · simp [← Except.error.inj checked]
  · simp [← Except.error.inj checked]

/-- A request that fails the checks is an error. -/
theorem symChecks_error {lib : Libcrypto} {req : SymReq} {code : Int}
    (checked : symChecks lib req = .error code) : code ≠ 0 := by
  have known : ∀ other ∈ [einval, enotsup, enomem], other ≠ 0 := by decide
  exact known code (symChecks_code checked)

/-- An encryption stays within its buffers. -/
theorem encrypt_bounded {lib : Libcrypto} (documented : lib.Documented) (req : SymReq) :
    Bounded lib (.encrypt req) := by
  show (cryptoEncrypt lib req).out.length ≤ req.outCap.toNat ∧
    (cryptoEncrypt lib req).tag.length ≤ (Request.encrypt req).tagRoom
  unfold cryptoEncrypt
  split
  · exact ⟨Nat.zero_le _, Nat.zero_le _⟩
  rename_i cipher _
  dsimp only
  have first := update_written lib (req.session true cipher)
  split
  · rename_i aead
    split
    · exact ⟨Nat.zero_le _, Nat.zero_le _⟩
    split
    · exact ⟨Nat.zero_le _, Nat.zero_le _⟩
    rename_i room
    rw [UInt32.lt_iff_toNat_lt] at room
    have fits := @streamed_fits lib documented req true cipher (.inr aead)
    split
    · exact ⟨by dsimp only; omega, Nat.zero_le _⟩
    rename_i updated
    rw [final_written (by simpa using updated)]
    split
    · exact ⟨by dsimp only; omega, Nat.zero_le _⟩
    split
    · rename_i tagged
      split
      · exact ⟨by dsimp only; omega, Nat.zero_le _⟩
      · rename_i tag got
        simp only [Bool.and_eq_true, Bool.not_eq_true', decide_eq_true_eq] at tagged
        have size := documented.tag _ tag got
        refine ⟨by dsimp only; omega, ?_⟩
        rw [Request.tagRoom, if_neg (by simp [tagged.1])]
        exact size ▸ tagged.2
    · exact ⟨by dsimp only; omega, Nat.zero_le _⟩
  · rename_i blocks
    split
    · exact ⟨Nat.zero_le _, Nat.zero_le _⟩
    split
    · exact ⟨Nat.zero_le _, Nat.zero_le _⟩
    rename_i room
    have fits := padded_fits documented req (by simpa using blocks) room
    split
    · exact ⟨by dsimp only; omega, Nat.zero_le _⟩
    rename_i updated
    rw [final_written (by simpa using updated)]
    split
    · exact ⟨by dsimp only; omega, Nat.zero_le _⟩
    · exact ⟨by dsimp only; omega, Nat.zero_le _⟩

/-- What a successful encryption has done. -/
theorem encrypt_done {lib : Libcrypto} {req : SymReq} (done : (cryptoEncrypt lib req).code = 0) :
    ∃ cipher, symChecks lib req = .ok cipher ∧
      (cryptoEncrypt lib req).out = lib.written (req.session true cipher) ∧
      ((cryptoEncrypt lib req).tag = [] ∨
        lib.getTag (req.session true cipher) = some (cryptoEncrypt lib req).tag) ∧
      (cipher.isAead = false → (cryptoEncrypt lib req).tag = []) ∧
      (cipher.isAead = true → req.input.len ≤ req.outCap ∧
        gcmReady lib req (req.session true cipher) = true ∧
        (lib.update (req.session true cipher)).2 = true ∧
        (lib.final (req.session true cipher)).2 = true) := by
  cases checked : symChecks lib req with
  | error code =>
    rw [cryptoEncrypt, checked] at done
    exact absurd done (symChecks_error checked)
  | ok cipher =>
    refine ⟨cipher, rfl, ?_⟩
    simp only [cryptoEncrypt, checked] at done ⊢
    split at done
    · rename_i aead
      split at done
      · exact absurd done codes_nonzero.1
      rename_i ready
      split at done
      · exact absurd done codes_nonzero.2.1
      rename_i room
      split at done
      · exact absurd done codes_nonzero.1
      rename_i updated
      split at done
      · exact absurd done codes_nonzero.1
      rename_i finished
      simp only [Bool.not_eq_true', Bool.not_eq_false] at ready updated finished
      have fits := UInt32.not_lt.mp room
      simp only [if_pos aead, ready, if_neg room, updated, finished, Bool.not_true,
        Bool.false_eq_true, if_false, final_written updated]
      split at done
      · rename_i tagged
        rw [if_pos tagged]
        split at done
        · exact absurd done codes_nonzero.1
        · rename_i tag got
          rw [got]
          exact ⟨rfl, .inr rfl, fun other => by simp [aead] at other,
            fun _ => ⟨fits, trivial, trivial, trivial⟩⟩
      · rename_i untagged
        rw [if_neg untagged]
        exact ⟨rfl, .inl rfl, fun _ => rfl, fun _ => ⟨fits, trivial, trivial, trivial⟩⟩
    · rename_i blocks
      split at done
      · exact absurd done codes_nonzero.1
      rename_i ready
      split at done
      · exact absurd done codes_nonzero.2.1
      rename_i room
      split at done
      · exact absurd done codes_nonzero.1
      rename_i updated
      split at done
      · exact absurd done codes_nonzero.1
      rename_i finished
      simp only [Bool.not_eq_true', Bool.not_eq_false] at updated finished
      rw [if_neg blocks, if_neg ready, if_neg room]
      simp only [updated, finished, Bool.not_true, Bool.false_eq_true, if_false,
        final_written updated]
      refine ⟨trivial, .inl trivial, fun _ => trivial, fun aead => absurd aead blocks⟩

/-- An encryption in GCM mode that the library carries out succeeds, with or without a tag. -/
theorem encrypt_seals {lib : Libcrypto} {req : SymReq} {cipher : Cipher}
    (checked : symChecks lib req = .ok cipher) (aead : cipher.isAead = true)
    (room : req.input.len ≤ req.outCap) (seals : Seals lib req cipher) :
    (cryptoEncrypt lib req).code = 0 ∧
      (gcmTagLen ≤ (Request.encrypt req).tagRoom →
        lib.getTag (req.session true cipher) = some (cryptoEncrypt lib req).tag) := by
  obtain ⟨ready, updated, finished, tagged⟩ := seals
  obtain ⟨tag, got⟩ := Option.isSome_iff_exists.mp tagged
  simp only [cryptoEncrypt, checked, if_pos aead, ready, if_neg (UInt32.not_lt.mpr room), updated,
    finished, Bool.not_true, Bool.false_eq_true, if_false, got]
  split
  · exact ⟨rfl, fun _ => rfl⟩
  · rename_i unroomy
    refine ⟨rfl, fun roomy => absurd ?_ unroomy⟩
    rw [Request.tagRoom] at roomy
    split at roomy
    · exact absurd roomy (by decide)
    · rename_i present
      simp [present, roomy]

/-- An encryption is contained exactly when its tag has room, if it makes one. -/
theorem encrypt_contained_iff {lib : Libcrypto} (documented : lib.Documented) (req : SymReq) :
    Contained lib (.encrypt req) ↔ Safe lib (.encrypt req) := by
  let roomy : SymReq := { req with outCap := 0xFFFFFFFF, tag := tagBuffer }
  have bounded := encrypt_bounded documented req
  have checks : symChecks lib roomy = symChecks lib req := rfl
  have sessions (cipher : Cipher) : roomy.session true cipher = req.session true cipher := rfl
  have bufferRoom : gcmTagLen ≤ (Request.encrypt roomy).tagRoom := by
    show 16 ≤ if tagBuffer.isNull then 0 else tagBuffer.len.toNat
    decide
  constructor
  · intro contained cipher checked aead room seals
    by_contra small
    have done := (encrypt_seals checked aead room seals).1
    have all := @encrypt_seals lib roomy cipher (checks.trans checked) aead
      (len_le_max req.input.len) seals
    have size := documented.tag _ _ (all.2 bufferRoom)
    refine contained.refuses all.1 (.inr ?_) done
    show (Request.encrypt req).tagRoom < (cryptoEncrypt lib roomy).tag.length
    omega
  · intro safe
    refine ⟨bounded, declaredOnly_plain lib rfl, ?_⟩
    intro succeeded large done
    have succeeded : (cryptoEncrypt lib roomy).code = 0 := succeeded
    have done : (cryptoEncrypt lib req).code = 0 := done
    obtain ⟨cipher, checked, out, -, -, carried⟩ := encrypt_done done
    obtain ⟨cipher', checked', out', tagged, plain, carried'⟩ := encrypt_done succeeded
    obtain rfl : cipher = cipher' := Except.ok.inj (checked.symm.trans (checks.symm.trans checked'))
    rcases large with long | long
    · have fits := bounded.1
      have same : (perform lib (Request.encrypt req).roomy).out =
          (perform lib (.encrypt req)).out := out'.trans out.symm
      rw [same] at long
      omega
    · have long : (Request.encrypt req).tagRoom < (cryptoEncrypt lib roomy).tag.length := long
      rcases tagged with none_ | got
      · rw [none_] at long
        cases long
      · have aead : cipher.isAead = true := by
          by_contra blocks
          rw [Bool.not_eq_true] at blocks
          rw [plain blocks] at long
          cases long
        have size := documented.tag _ _ got
        have seals : Seals lib req cipher :=
          ⟨(carried aead).2.1, (carried aead).2.2.1, (carried aead).2.2.2, by
            rw [← sessions, got]; rfl⟩
        have room := safe cipher checked aead (carried aead).1 seals
        omega

/-- A decryption is contained. -/
theorem decrypt_contained {lib : Libcrypto} (documented : lib.Documented) (req : SymReq) :
    Contained lib (.decrypt req) := by
  -- What a decryption does: within its room, and all of it when it succeeds.
  have result (req : SymReq) : (cryptoDecrypt lib req).tag = [] ∧
      (cryptoDecrypt lib req).out.length ≤ req.outCap.toNat ∧
      ((cryptoDecrypt lib req).code = 0 → ∃ cipher, symChecks lib req = .ok cipher ∧
        (cryptoDecrypt lib req).out = lib.written (req.session false cipher)) := by
    cases checked : symChecks lib req with
    | error code =>
      simp only [cryptoDecrypt, checked]
      exact ⟨rfl, Nat.zero_le _, fun done => absurd done (symChecks_error checked)⟩
    | ok cipher =>
      have first := update_written lib (req.session false cipher)
      have fits := @streamed_fits lib documented req false cipher (.inl rfl)
      simp only [cryptoDecrypt, checked]
      split
      · exact ⟨rfl, Nat.zero_le _, fun done => absurd done codes_nonzero.1⟩
      split
      · exact ⟨rfl, Nat.zero_le _, fun done => absurd done codes_nonzero.1⟩
      split
      · exact ⟨rfl, Nat.zero_le _, fun done => absurd done codes_nonzero.1⟩
      split
      · exact ⟨rfl, Nat.zero_le _, fun done => absurd done codes_nonzero.2.1⟩
      rename_i room
      rw [UInt32.lt_iff_toNat_lt] at room
      split
      · exact ⟨rfl, by dsimp only; omega, fun done => absurd done codes_nonzero.1⟩
      rename_i updated
      rw [final_written (by simpa using updated)]
      split
      · exact ⟨rfl, by dsimp only; omega, fun done => absurd done codes_nonzero.2.2⟩
      · exact ⟨rfl, by dsimp only; omega, fun _ => ⟨cipher, rfl, rfl⟩⟩
  obtain ⟨tag, fits, whole⟩ := result req
  refine ⟨⟨fits, ?_⟩, declaredOnly_plain lib rfl, ?_⟩
  · show (cryptoDecrypt lib req).tag.length ≤ _
    rw [tag]
    exact Nat.zero_le _
  · intro succeeded large done
    obtain ⟨tag', -, whole'⟩ := result { req with outCap := 0xFFFFFFFF }
    obtain ⟨cipher, checked, out⟩ := whole done
    obtain ⟨cipher', checked', out'⟩ := whole' succeeded
    have checks : symChecks lib { req with outCap := 0xFFFFFFFF } = symChecks lib req := rfl
    obtain rfl : cipher = cipher' := Except.ok.inj (checked.symm.trans (checks.symm.trans checked'))
    rcases large with long | long
    · have same : (perform lib (Request.decrypt req).roomy).out = (cryptoDecrypt lib req).out :=
        out'.trans out.symm
      rw [same] at long
      have room : (Request.decrypt req).outRoom = req.outCap.toNat := rfl
      omega
    · have none_ : (perform lib (Request.decrypt req).roomy).tag = [] := tag'
      rw [none_] at long
      cases long

/-! ## Keys as text -/

/-- One of the words is found exactly when a text holds one of the two shorter ones. -/
theorem pemWords_found (text : CString) :
    (pemWords.any fun word => (strstr word text).isSome) = true ↔
      lit "PRIVATE KEY" <:+: text ∨ lit "PUBLIC KEY" <:+: text := by
  have inside : lit "PRIVATE KEY" <:+: lit "RSA PRIVATE KEY" ∧
      lit "PUBLIC KEY" <:+: lit "RSA PUBLIC KEY" :=
    ⟨⟨lit "RSA ", [], by decide⟩, ⟨lit "RSA ", [], by decide⟩⟩
  simp only [pemWords, List.any_cons, List.any_nil, Bool.or_false, Bool.or_eq_true,
    strstr_isSome]
  constructor
  · rintro (first | second | third | fourth)
    · exact .inl first
    · exact .inr second
    · exact .inl (inside.1.trans third)
    · exact .inr (inside.2.trans fourth)
  · rintro (first | second)
    · exact .inl first
    · exact .inr (.inl second)

/-- Importing a key for an asymmetric algorithm searches the text in memory. -/
theorem importPem_search {pem : Input} {memory : List UInt8} (held : pem.memory = some memory)
    (filled : pem.len ≠ 0) (isAsym : Bool) :
    cryptoImportPem pem true isAsym =
      if (pemWords.any fun word => (strstr word (bufferText memory)).isSome) = true then
        ⟨0, [], [], none, none, if isAsym then some 1 else none⟩
      else .fail eilseq := by
  simp only [cryptoImportPem, held, if_neg filled, if_true]

/-- A search that depends on the declared bytes alone has a text that ends in them, or a word. -/
theorem safe_of_declaredOnly {lib : Libcrypto} {pem : Input} {isAsym : Bool}
    (declared : DeclaredOnly lib (.importPem pem true isAsym)) :
    Safe lib (.importPem pem true isAsym) := by
  have ends : lit "PRIVATE KEY" ≠ [] ∧ (0 : UInt8) ∉ lit "PRIVATE KEY" := by decide
  intro _ bytes shown filled
  by_contra open_
  simp only [not_or] at open_
  obtain ⟨zero, private_, public_⟩ := open_
  have length := declared_length shown
  have filled : pem.len ≠ 0 := by
    intro none_
    rw [none_] at length
    exact filled (List.length_eq_zero_iff.mp length)
  -- The same declared bytes with any other bytes behind them.
  let behind (rest : List UInt8) : Input :=
    ⟨some (bytes ++ rest), pem.len, by
      rintro _ ⟨⟩
      rw [List.length_append, length]
      omega⟩
  have same (rest : List UInt8) :
      (Request.importPem (behind rest) true isAsym).cut =
        (Request.importPem pem true isAsym).cut := by
    have bytesCut : (behind rest).declared = pem.declared := by
      rw [shown]
      show some ((bytes ++ rest).take pem.len.toNat) = some bytes
      rw [← length, List.take_left]
    simp only [Request.cut, Input.cut, bytesCut]
    rfl
  have word := declared _ (same (lit "PRIVATE KEY"))
  have zeroed := declared _ (same [0])
  have equal : perform lib (.importPem (behind (lit "PRIVATE KEY")) true isAsym) =
      perform lib (.importPem (behind [0]) true isAsym) := word.trans zeroed.symm
  have wholeText : bufferText (bytes ++ lit "PRIVATE KEY") = bytes ++ lit "PRIVATE KEY" :=
    bufferText_eq (by simp [zero, ends.2])
  have cutText : bufferText (bytes ++ [0]) = bytes := by
    rw [bufferText_append zero]
    exact List.append_nil bytes
  have first : perform lib (.importPem (behind (lit "PRIVATE KEY")) true isAsym) =
      ⟨0, [], [], none, none, if isAsym then some 1 else none⟩ := by
    refine (@importPem_search (behind (lit "PRIVATE KEY")) _ rfl filled isAsym).trans ?_
    rw [wholeText, if_pos]
    rw [pemWords_found]
    exact .inl (List.suffix_append _ _).isInfix
  have second : perform lib (.importPem (behind [0]) true isAsym) = .fail eilseq := by
    refine (@importPem_search (behind [0]) _ rfl filled isAsym).trans ?_
    rw [cutText, if_neg]
    rw [pemWords_found]
    rintro (found | found)
    · exact private_ found
    · exact public_ found
  rw [first, second] at equal
  exact absurd (congrArg Outcome.code equal) codes_nonzero.2.2.symm

/-- When the declared bytes end the text or hold a word, the search depends on them alone. -/
theorem declaredOnly_of_safe {lib : Libcrypto} {pem : Input} {isAsym : Bool}
    (safe : Safe lib (.importPem pem true isAsym)) :
    DeclaredOnly lib (.importPem pem true isAsym) := by
  intro other same
  cases other with
  | importPem pem' expectedAsym' isAsym' =>
    simp only [Request.cut, Request.importPem.injEq] at same
    obtain ⟨cuts, rfl, rfl⟩ := same
    have lens : pem'.cut.len = pem.cut.len := by rw [cuts]
    have shown : pem'.cut.memory = pem.cut.memory := by rw [cuts]
    rw [len_cut, len_cut] at lens
    have shown : pem'.declared = pem.declared := shown
    show cryptoImportPem pem' true isAsym' = cryptoImportPem pem true isAsym'
    cases held : pem.memory with
    | none =>
      have none_ : pem'.memory = none := by
        rw [Input.declared, Input.declared, held] at shown
        simpa using shown
      simp [cryptoImportPem, held, none_]
    | some memory =>
      obtain ⟨memory', held'⟩ : ∃ memory', pem'.memory = some memory' := by
        rw [Input.declared, Input.declared, held] at shown
        obtain ⟨memory', held', -⟩ := Option.map_eq_some_iff.mp shown
        exact ⟨memory', held'⟩
      by_cases none_ : pem.len = 0
      · simp [cryptoImportPem, held, held', lens, none_]
      · rw [importPem_search held none_, importPem_search held' (lens ▸ none_)]
        have front : memory'.take pem.len.toNat = memory.take pem.len.toNat := by
          rw [Input.declared, Input.declared, held, held', lens] at shown
          exact Option.some.inj shown
        have positive : 0 < pem.len.toNat := UInt32.pos_iff_ne_zero.mpr none_
        have filled : memory.take pem.len.toNat ≠ [] := by
          have long := pem.readable memory held
          intro empty
          have zero := congrArg List.length empty
          rw [List.length_take, List.length_nil] at zero
          omega
        have bytes : pem.declared = some (memory.take pem.len.toNat) := by
          rw [Input.declared, held]
          rfl
        have condition := safe rfl _ bytes filled
        -- Both texts begin with the same declared bytes.
        have texts (found : (0 : UInt8) ∉ memory.take pem.len.toNat) (whole : List UInt8)
            (begins : whole.take pem.len.toNat = memory.take pem.len.toNat) :
            (pemWords.any fun word => (strstr word (bufferText whole)).isSome) = true := by
          rw [pemWords_found, ← List.take_append_drop pem.len.toNat whole, begins,
            bufferText_append found]
          rcases condition with zero | first | second
          · exact absurd zero found
          · exact .inl (first.trans (List.prefix_append _ _).isInfix)
          · exact .inr (second.trans (List.prefix_append _ _).isInfix)
        by_cases zero : (0 : UInt8) ∈ memory.take pem.len.toNat
        · have text : bufferText memory' = bufferText memory := by
            rw [← List.take_append_drop pem.len.toNat memory',
              ← List.take_append_drop pem.len.toNat memory, front, bufferText_zero zero,
              bufferText_zero zero]
          rw [text]
        · rw [if_pos (texts zero memory' front), if_pos (texts zero memory rfl)]
  | _ => cases same

/-- A search depends on the declared bytes exactly when they end the text or hold a word. -/
theorem search_declared_iff (lib : Libcrypto) (pem : Input) (isAsym : Bool) :
    DeclaredOnly lib (.importPem pem true isAsym) ↔ Safe lib (.importPem pem true isAsym) :=
  ⟨safe_of_declaredOnly, declaredOnly_of_safe⟩

/-- An import is contained exactly when its search ends in the declared bytes. -/
theorem importPem_contained_iff (lib : Libcrypto) (pem : Input) (expectedAsym isAsym : Bool) :
    Contained lib (.importPem pem expectedAsym isAsym) ↔
      Safe lib (.importPem pem expectedAsym isAsym) := by
  have silent : (cryptoImportPem pem expectedAsym isAsym).out = [] ∧
      (cryptoImportPem pem expectedAsym isAsym).tag = [] := by
    unfold cryptoImportPem
    split
    · exact ⟨rfl, rfl⟩
    · dsimp only
      split_ifs <;> exact ⟨rfl, rfl⟩
  have bounded : Bounded lib (.importPem pem expectedAsym isAsym) := by
    show (cryptoImportPem pem expectedAsym isAsym).out.length ≤ 0 ∧
      (cryptoImportPem pem expectedAsym isAsym).tag.length ≤ 0
    rw [silent.1, silent.2]
    exact ⟨Nat.le_refl _, Nat.le_refl _⟩
  have refuses : RefusesOverflow lib (.importPem pem expectedAsym isAsym) := by
    intro _ large
    rcases large with long | long
    · exact absurd bounded.1 (Nat.not_le.mpr long)
    · exact absurd bounded.2 (Nat.not_le.mpr long)
  have declared : DeclaredOnly lib (.importPem pem expectedAsym isAsym) ↔
      Safe lib (.importPem pem expectedAsym isAsym) := by
    cases expectedAsym with
    | true => exact search_declared_iff lib pem isAsym
    | false =>
      constructor
      · intro _ asked
        cases asked
      · exact fun _ => declaredOnly_plain lib rfl
  constructor
  · exact fun contained => declared.mp contained.declared
  · exact fun safe => ⟨bounded, declared.mpr safe, refuses⟩

/-- What `export_pem` writes when it succeeds. -/
def exported (pem : Input) : List UInt8 :=
  let memory := pem.memory.getD []
  memory.take (if endsWithZero memory pem.len then pem.len.toNat - 1 else pem.len.toNat) ++ [0]

/-- What `export_pem` does: an error without output, or the text when it fits. -/
theorem cryptoExportPem_cases (pem : Input) (out : Bool) (outCap : Option UInt32) :
    (∃ code, code ≠ 0 ∧ cryptoExportPem pem out outCap = .fail code) ∨
    ((cryptoExportPem pem out outCap).out = exported pem ∧
      (cryptoExportPem pem out outCap).tag = [] ∧
      (exported pem).length ≤ (outCap.map UInt32.toNat).getD 0) := by
  cases held : pem.memory with
  | none => exact .inl ⟨einval, codes_nonzero.1, by simp only [cryptoExportPem, held]⟩
  | some memory =>
    cases outCap with
    | none => exact .inl ⟨einval, codes_nonzero.1, by simp only [cryptoExportPem, held]⟩
    | some cap =>
      have whole : exported pem = memory.take (if endsWithZero memory pem.len = true then
          pem.len.toNat - 1 else pem.len.toNat) ++ [0] := by
        rw [exported, held]
        rfl
      rw [whole]
      simp only [cryptoExportPem, held, Option.map_some, Option.getD_some]
      by_cases checked : out = false ∨ pem.len = 0
      · exact .inl ⟨einval, codes_nonzero.1, if_pos checked⟩
      rw [if_neg checked]
      generalize (if endsWithZero memory pem.len = true then pem.len.toNat - 1
        else pem.len.toNat) = count
      by_cases full : cap.toNat < count + 1
      · exact .inl ⟨enomem, codes_nonzero.2.1, if_pos full⟩
      rw [if_neg full]
      refine .inr ⟨rfl, rfl, ?_⟩
      rw [List.length_append, List.length_take, List.length_singleton]
      omega

/-- An export is contained. -/
theorem exportPem_contained (lib : Libcrypto) (pem : Input) (out : Bool)
    (outCap : Option UInt32) : Contained lib (.exportPem pem out outCap) := by
  have bounded : Bounded lib (.exportPem pem out outCap) := by
    show (cryptoExportPem pem out outCap).out.length ≤ (outCap.map UInt32.toNat).getD 0 ∧
      (cryptoExportPem pem out outCap).tag.length ≤ 0
    rcases cryptoExportPem_cases pem out outCap with ⟨code, -, failed⟩ | ⟨text, tag, fits⟩
    · rw [failed]
      exact ⟨Nat.zero_le _, Nat.le_refl _⟩
    · rw [text, tag]
      exact ⟨fits, Nat.le_refl _⟩
  refine ⟨bounded, declaredOnly_plain lib rfl, ?_⟩
  show (cryptoExportPem pem out (outCap.map fun _ => 0xFFFFFFFF)).code = 0 →
    (outCap.map UInt32.toNat).getD 0 <
        (cryptoExportPem pem out (outCap.map fun _ => 0xFFFFFFFF)).out.length ∨
      0 < (cryptoExportPem pem out (outCap.map fun _ => 0xFFFFFFFF)).tag.length →
    (cryptoExportPem pem out outCap).code ≠ 0
  intro succeeded large
  rcases cryptoExportPem_cases pem out (outCap.map fun _ => 0xFFFFFFFF) with
    ⟨code, nonzero, failed⟩ | ⟨text, tag, -⟩
  · rw [failed] at succeeded
    exact absurd succeeded nonzero
  rcases cryptoExportPem_cases pem out outCap with ⟨code, nonzero, failed⟩ | ⟨-, -, fits⟩
  · rw [failed]
    exact nonzero
  · rcases large with long | long
    · rw [text] at long
      omega
    · rw [tag] at long
      cases long

/-! ## Every request -/

/-- With a library that does what is documented, an operation stays within its buffers, depends
on the declared bytes only and refuses a result that does not fit, exactly in the safe cases. -/
theorem contained_iff (lib : Libcrypto) (documented : lib.Documented) (request : Request) :
    Contained lib request ↔ Safe lib request := by
  cases request with
  | hash req => exact ⟨fun _ => trivial, fun _ => hash_contained documented req⟩
  | hmac req => exact hmac_contained_iff documented req
  | encrypt req => exact encrypt_contained_iff documented req
  | decrypt req => exact ⟨fun _ => trivial, fun _ => decrypt_contained documented req⟩
  | importPem pem expectedAsym isAsym => exact importPem_contained_iff lib pem expectedAsym isAsym
  | exportPem pem out outCap =>
    exact ⟨fun _ => trivial, fun _ => exportPem_contained lib pem out outCap⟩

/-- HMAC-MD5 of the empty text under the empty key. -/
def emptyHmac : List UInt8 :=
  [0x74, 0xe6, 0xf7, 0x29, 0x8a, 0x9c, 0x2d, 0x16, 0x89, 0x35, 0xf5, 0x8c, 0x00, 0x1b, 0xad, 0x88]

/-- A library that knows this keyed digest and refuses every other call. -/
def oneHmac : Libcrypto where
  newCtx := true
  digest _ _ := none
  hmac md key len data :=
    if md = .md5 ∧ key = some [] ∧ len = 0 ∧ data = [] then some emptyHmac else none
  setCipher _ := false
  setIvLen _ := false
  setKey _ := false
  setTag _ := false
  addAad _ := false
  update _ := ([], false)
  final _ := ([], false)
  getTag _ := none

/-- The library does what is documented. -/
theorem oneHmac_documented : oneHmac.Documented where
  digest := by
    intro _ _ _ digested
    cases digested
  hmac := by
    intro md key len data bytes digested
    simp only [oneHmac] at digested
    split at digested
    · rename_i known
      rw [← Option.some.inj digested, known.1]
      rfl
    · cases digested
  negative := fun _ _ => rfl
  padded := by
    intro session _ _ positive
    refine ⟨?_, fun updated => by cases updated⟩
    show ((0 : Nat) : Int) ≤ _
    omega
  streamed := fun _ _ positive => positive
  tag := by
    intro _ _ got
    cases got

/-- A pointer to no bytes. -/
def emptyInput : Input where
  memory := some []
  len := 0
  readable := by
    rintro _ ⟨⟩
    decide

/-- The keyed digest of the empty text into a buffer. -/
def emptyRequest (outCap : UInt32) : Request := .hmac ⟨2, emptyInput, emptyInput, true, outCap⟩

/-- A buffer of sixteen bytes takes the keyed digest. -/
theorem hmac_sixteen_contained : Contained oneHmac (emptyRequest 16) := by
  apply (contained_iff oneHmac oneHmac_documented (emptyRequest 16)).mpr
  intro data md _ known _ _
  obtain rfl := Option.some.inj known
  decide

/-- A buffer of four bytes is overrun. -/
theorem hmac_four_overruns :
    ¬ ∀ (lib : Libcrypto), lib.Documented → ∀ request, Contained lib request := by
  intro always
  have bounded := (always oneHmac oneHmac_documented (emptyRequest 4)).bounded.1
  revert bounded
  decide

end HwrunOs.Crypto
