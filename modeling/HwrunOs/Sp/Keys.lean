import HwrunOs.Library.Lookup
import HwrunOs.Library.Runs
import HwrunOs.Sp.Util

/-!
# The key store

Key pairs are kept in memory under numbers that a counter of 32 bits gives out. A number is drawn
even when the key cannot be stored, and the counter starts again from zero after its last value.
What the tools that make keys and signatures do is part of each call.
-/

namespace HwrunOs.Sp

open HwrunOs.Bytes HwrunOs.Lookup HwrunOs.Runs

/-- `SP_ENOTSUP`. -/
def enotsup : Int := -6

/-! ## The store -/

/-- `sp_key_entry_t`. -/
structure KeyEntry where
  /-- `key_id`. -/
  keyId : UInt32
  /-- `algo`. -/
  algo : Int
  /-- `desc`. -/
  desc : Field 128
  /-- `priv_pem`. -/
  privPem : CString
  /-- `pub_pem`. -/
  pubPem : CString
  /-- `revoked`. -/
  revoked : Bool
  /-- `created_ms`. -/
  createdMs : UInt64
  deriving DecidableEq

/-- The keys of `g_sp_ctx`. -/
structure KeyStore where
  /-- `keys`: the newest is the first. -/
  keys : List KeyEntry
  /-- `next_key_id`. -/
  nextKeyId : UInt32
  deriving DecidableEq

/-- The keys after `sp_init`. -/
def KeyStore.init : KeyStore := ⟨[], 1⟩

/-- Whether an entry has a number. -/
def KeyEntry.isKey (keyId : UInt32) (entry : KeyEntry) : Bool := entry.keyId == keyId

/-- What `sp_key_new_entry` finds: memory for the entry, memory for the texts, and the time. -/
structure EntryRun where
  /-- `calloc` has memory. -/
  memory : Bool
  /-- Both `strdup` have memory. -/
  copies : Bool
  /-- `sp_now_ms`. -/
  now : UInt64

/-- `sp_key_new_entry`. -/
def spKeyNewEntry (store : KeyStore) (algo : Int) (desc : Option CString) (priv pub : CString)
    (run : EntryRun) : KeyStore × Option KeyEntry :=
  if !run.memory then (store, none)
  else
    let entry : KeyEntry := {
      keyId := store.nextKeyId
      algo := algo
      desc := Field.copy (desc.getD [])
      privPem := priv
      pubPem := pub
      revoked := false
      createdMs := run.now }
    -- The number is drawn before it is known whether the texts can be kept.
    if !run.copies then ({ store with nextKeyId := store.nextKeyId + 1 }, none)
    else (⟨entry :: store.keys, store.nextKeyId + 1⟩, some entry)

/-- `sp_key_find`. -/
def spKeyFind (store : KeyStore) (keyId : UInt32) (checkRevoked : Bool) : Int × Option KeyEntry :=
  match store.keys.find? (KeyEntry.isKey keyId) with
  | some entry => if checkRevoked && entry.revoked then (eacces, some entry) else (spOk, some entry)
  | none => (enotfound, none)

/-! ## New keys -/

/-- One of `SP_ASYM_RSA_2048`, `SP_ASYM_RSA_4096` and `SP_ASYM_ECDSA_P256`. -/
def isAsym (algo : Int) : Bool := algo == 0 || algo == 1 || algo == 2

/-- The end of both calls that make a key: its number. -/
def storeKey (store : KeyStore) (algo : Int) (desc : Option CString) (priv pub : CString)
    (run : EntryRun) : KeyStore × Except Int UInt32 :=
  match spKeyNewEntry store algo desc priv pub run with
  | (later, some entry) => (later, .ok entry.keyId)
  | (later, none) => (later, .error enomem)

/-- What `sp_gen_key_pair` finds. -/
structure GenRun where
  /-- `sp_tmp_path` gives both paths. -/
  paths : Bool
  /-- The commands return 0. -/
  made : Bool
  /-- Both buffers can be allocated. -/
  buffers : Bool
  /-- The texts read, if they are not empty. -/
  texts : Option (CString × CString)
  /-- The entry. -/
  entry : EntryRun

/-- `sp_gen_key_pair`; `given` is whether there is somewhere to store the number. -/
def spGenKeyPair (store : KeyStore) (algo : Int) (desc : Option CString) (given : Bool)
    (run : GenRun) : KeyStore × Except Int UInt32 :=
  if !given then (store, .error einval)
  else if !isAsym algo then (store, .error enotsup)
  else if !run.paths then (store, .error eio)
  else if !run.made then (store, .error eio)
  else if !run.buffers then (store, .error enomem)
  else match run.texts with
    | none => (store, .error eio)
    | some (priv, pub) => storeKey store algo desc priv pub run.entry

/-- What `sp_importPairkey_pair` finds. -/
structure ImportRun where
  /-- `sp_tmp_path` gives both paths. -/
  paths : Bool
  /-- The key is written to its file. -/
  written : Bool
  /-- The command accepts it. -/
  accepted : Bool
  /-- The buffer can be allocated. -/
  buffer : Bool
  /-- The public key read, if it is not empty. -/
  text : Option CString
  /-- The entry. -/
  entry : EntryRun

/-- `sp_importPairkey_pair`. -/
def spImportKeyPair (store : KeyStore) (algo : Int) (desc privPem : Option CString) (given : Bool)
    (run : ImportRun) : KeyStore × Except Int UInt32 :=
  match privPem with
  | none => (store, .error einval)
  | some priv =>
    if !given then (store, .error einval)
    else if !isAsym algo then (store, .error enotsup)
    else if !run.paths then (store, .error eio)
    else if !run.written then (store, .error eio)
    else if !run.accepted then (store, .error einval)
    else if !run.buffer then (store, .error enomem)
    else match run.text with
      | none => (store, .error eio)
      | some pub => storeKey store algo desc priv pub run.entry

/-! ## Keys that are given up -/

/-- `sp_revoke_key`. -/
def spRevokeKey (store : KeyStore) (keyId : UInt32) : KeyStore × Int :=
  let (rc, _) := spKeyFind store keyId false
  if rc = spOk then
    ({ store with
        keys := updateFirst (KeyEntry.isKey keyId) (fun entry => { entry with revoked := true })
          store.keys }, rc)
  else (store, rc)

/-- `sp_destroy_key`. -/
def spDestroyKey (store : KeyStore) (keyId : UInt32) : KeyStore × Int :=
  if store.keys.any (KeyEntry.isKey keyId) then
    ({ store with keys := store.keys.eraseP (KeyEntry.isKey keyId) }, spOk)
  else (store, enotfound)

/-! ## Uses of a key -/

/-- A text and its terminating zero for a buffer of some bytes. -/
def copyOut (text : CString) (cap : UInt32) : Int × Option CString :=
  if cap.toNat < text.length + 1 then (enomem, none) else (spOk, some text)

/-- `sp_get_public_key`; `given` is whether there is somewhere to store the text. -/
def spGetPublicKey (store : KeyStore) (keyId : UInt32) (given : Bool) (cap : UInt32) :
    Int × Option CString :=
  if !given then (einval, none)
  else match spKeyFind store keyId true with
    | (rc, some entry) => if rc = spOk then copyOut entry.pubPem cap else (rc, none)
    | (rc, none) => (rc, none)

/-- `sp_export_private_key`. -/
def spExportPrivateKey (store : KeyStore) (keyId : UInt32) (given : Bool) (cap : UInt32) :
    Int × Option CString :=
  if !given then (einval, none)
  else match spKeyFind store keyId false with
    | (rc, some entry) => if rc = spOk then copyOut entry.privPem cap else (rc, none)
    | (rc, none) => (rc, none)

/-- What `sp_sign` and `sp_verify` find before they run the command. -/
structure FilesRun where
  /-- `strdup` has memory. -/
  copy : Bool
  /-- `sp_tmp_path` gives all paths. -/
  paths : Bool
  /-- The data is written to its file. -/
  data : Bool
  /-- The key is written to its file. -/
  key : Bool

/-- The steps before the command. -/
def FilesRun.code (run : FilesRun) : Int :=
  if !run.copy then enomem
  else if !run.paths then eio
  else if !run.data then eio
  else if !run.key then eio
  else spOk

/-- The commands of signatures. -/
structure SignTools where
  /-- `openssl dgst -sha256 -sign`: the signature read back, if there is one. -/
  sign : CString → List UInt8 → Option (List UInt8)
  /-- `sp_b64_encode` into a buffer of some bytes. -/
  encode : List UInt8 → UInt32 → Except Int CString
  /-- `sp_b64_decode`. -/
  decode : CString → Except Int (List UInt8)
  /-- `openssl dgst -sha256 -verify`. -/
  verify : CString → List UInt8 → List UInt8 → Bool

/-- `sp_sign`. -/
def spSign (tools : SignTools) (store : KeyStore) (keyId : UInt32) (data : Option (List UInt8))
    (given : Bool) (cap : UInt32) (run : FilesRun) : Int × Option CString :=
  match data with
  | none => (einval, none)
  | some data =>
    if !given then (einval, none)
    else match spKeyFind store keyId true with
      | (rc, none) => (rc, none)
      | (rc, some entry) =>
        if rc ≠ spOk then (rc, none)
        else if run.code ≠ spOk then (run.code, none)
        else match tools.sign entry.privPem data with
          | none => (eio, none)
          | some signature => match tools.encode signature cap with
            | .ok text => (spOk, some text)
            | .error code => (code, none)

/-- `sp_verify`: the code, and whether the signature is valid. -/
def spVerify (tools : SignTools) (store : KeyStore) (keyId : UInt32) (data : Option (List UInt8))
    (signature : Option CString) (given : Bool) (run : FilesRun) (written : Bool) : Int × Bool :=
  match data, signature with
  | some data, some signature =>
    if !given then (einval, false)
    else match spKeyFind store keyId true with
      | (rc, none) => (rc, false)
      | (rc, some entry) =>
        if rc ≠ spOk then (rc, false)
        else if run.code ≠ spOk then (run.code, false)
        else match tools.decode signature with
          | .error code => (code, false)
          | .ok bytes =>
            if !written then (eio, false) else (spOk, tools.verify entry.pubPem data bytes)
  | _, _ => (einval, false)

/-! ## Runs -/

/-- A call that changes the store. -/
inductive KeyCall where
  /-- `sp_gen_key_pair`. -/
  | genPair (algo : Int) (desc : Option CString) (given : Bool) (run : GenRun)
  /-- `sp_importPairkey_pair`. -/
  | importPair (algo : Int) (desc privPem : Option CString) (given : Bool) (run : ImportRun)
  /-- `sp_revoke_key`. -/
  | revoke (keyId : UInt32)
  /-- `sp_destroy_key`. -/
  | destroy (keyId : UInt32)

/-- The store with what happened to its keys. -/
structure KeyHistory where
  /-- The store. -/
  store : KeyStore
  /-- How many numbers were drawn. -/
  drawn : Nat
  /-- For each key that was stored, how many numbers were drawn before its own. -/
  born : List Nat
  /-- The numbers that were destroyed. -/
  destroyed : List UInt32
  /-- The numbers that were revoked. -/
  revoked : List UInt32

/-- Nothing happened. -/
def KeyHistory.start : KeyHistory := ⟨.init, 0, [], [], []⟩

/-- The history after a call that makes a key. The counter moves exactly when a number is
drawn. -/
def KeyHistory.make (history : KeyHistory) (result : KeyStore × Except Int UInt32) : KeyHistory :=
  { history with
    store := result.1
    drawn := if result.1.nextKeyId = history.store.nextKeyId then history.drawn
      else history.drawn + 1
    born := match result.2 with
      | .ok _ => history.drawn :: history.born
      | .error _ => history.born }

/-- The history after a call. -/
def KeyHistory.step (history : KeyHistory) : KeyCall → KeyHistory
  | .genPair algo desc given run => history.make (spGenKeyPair history.store algo desc given run)
  | .importPair algo desc privPem given run =>
    history.make (spImportKeyPair history.store algo desc privPem given run)
  | .revoke keyId =>
    let (store, rc) := spRevokeKey history.store keyId
    { history with
      store := store
      revoked := if rc = spOk then keyId :: history.revoked else history.revoked }
  | .destroy keyId =>
    let (store, rc) := spDestroyKey history.store keyId
    { history with
      store := store
      destroyed := if rc = spOk then keyId :: history.destroyed else history.destroyed }

/-- What users of the store rely on. -/
structure Identified (history : KeyHistory) : Prop where
  /-- No two keys have the same number. -/
  distinct : (history.store.keys.map KeyEntry.keyId).Nodup
  /-- A number that was destroyed is not found again. -/
  gone : ∀ keyId ∈ history.destroyed, ∀ checkRevoked,
    spKeyFind history.store keyId checkRevoked = (enotfound, none)
  /-- A number that was revoked signs nothing. -/
  unsigned : ∀ keyId ∈ history.revoked, ∀ tools data given cap run,
    (spSign tools history.store keyId data given cap run).1 ≠ spOk
  /-- It verifies nothing. -/
  unverified : ∀ keyId ∈ history.revoked, ∀ tools data signature given run written,
    (spVerify tools history.store keyId data signature given run written).1 ≠ spOk
  /-- Its public key is not given out. -/
  unpublished : ∀ keyId ∈ history.revoked, ∀ given cap,
    (spGetPublicKey history.store keyId given cap).1 ≠ spOk
  /-- Revoking a number changes no other key. -/
  revokes : ∀ keyId, (spRevokeKey history.store keyId).1.keys = history.store.keys.map fun entry =>
    if entry.keyId = keyId then { entry with revoked := true } else entry
  /-- Destroying a number changes no other key. -/
  destroys : ∀ keyId, (spDestroyKey history.store keyId).1.keys =
    history.store.keys.filter fun entry => entry.keyId ≠ keyId

/-- Everything works when a key is made. -/
def KeyCall.stores : KeyCall → Bool
  | .genPair algo _ given run => given && isAsym algo && run.paths && run.made && run.buffers &&
    run.texts.isSome && run.entry.memory && run.entry.copies
  | .importPair algo _ privPem given run => privPem.isSome && given && isAsym algo && run.paths &&
    run.written && run.accepted && run.buffer && run.text.isSome && run.entry.memory &&
    run.entry.copies
  | _ => false

/-- A key is stored only when the numbers drawn since an earlier key are not all numbers there are,
once or several times. -/
def Unwrapped (history : KeyHistory) (call : KeyCall) : Prop :=
  call.stores = true → ∀ earlier ∈ history.born, ¬ 2 ^ 32 ∣ history.drawn - earlier

/-! ## What a call does -/

/-- A key that is found has the number. -/
theorem keyId_of_find {keys : List KeyEntry} {keyId : UInt32} {entry : KeyEntry}
    (found : keys.find? (KeyEntry.isKey keyId) = some entry) : entry.keyId = keyId := by
  have matched := List.find?_some found
  exact beq_iff_eq.mp matched

/-- Where no key is found none has the number. -/
theorem keyId_ne_of_find {keys : List KeyEntry} {keyId : UInt32}
    (missing : keys.find? (KeyEntry.isKey keyId) = none) :
    ∀ entry ∈ keys, entry.keyId ≠ keyId := by
  intro entry listed same
  exact List.find?_eq_none.mp missing entry listed (beq_iff_eq.mpr same)

/-- The private key is given out whether or not it was revoked: of the four uses this one does not
ask. -/
theorem spExportPrivateKey_revoked (store : KeyStore) (revoked keyId : UInt32) (given : Bool)
    (cap : UInt32) :
    spExportPrivateKey (spRevokeKey store revoked).1 keyId given cap =
      spExportPrivateKey store keyId given cap := by
  unfold spRevokeKey
  dsimp only
  split
  · have kept : ((updateFirst (KeyEntry.isKey revoked) (fun entry => { entry with revoked := true })
        store.keys).find? (KeyEntry.isKey keyId)).map KeyEntry.privPem =
          (store.keys.find? (KeyEntry.isKey keyId)).map KeyEntry.privPem := by
      refine find?_map_updateFirst ?_ ?_ store.keys
      · exact fun _ => rfl
      · exact fun _ => rfl
    unfold spExportPrivateKey spKeyFind
    dsimp only
    generalize (updateFirst _ _ store.keys).find? _ = after at kept
    generalize store.keys.find? _ = before at kept
    cases after with
    | none =>
      cases before with
      | none => rfl
      | some other => cases kept
    | some entry =>
      cases before with
      | none => cases kept
      | some other =>
        have same : entry.privPem = other.privPem := Option.some.inj kept
        simp only [Bool.false_and, Bool.false_eq_true, if_false, if_true, same]
  · rfl

/-- What becomes of a call that makes a key. -/
inductive Makes (store : KeyStore) (stores : Bool) (result : KeyStore × Except Int UInt32) :
    Prop where
  /-- Nothing happens. -/
  | refused (code : Int) (done : result = (store, .error code)) (failed : stores = false)
  /-- A number is drawn for nothing. -/
  | lost (code : Int)
      (done : result = ({ store with nextKeyId := store.nextKeyId + 1 }, .error code))
      (failed : stores = false)
  /-- The key is stored under the next number. -/
  | stored (entry : KeyEntry) (numbered : entry.keyId = store.nextKeyId)
      (active : entry.revoked = false)
      (done : result = (⟨entry :: store.keys, store.nextKeyId + 1⟩, .ok entry.keyId))
      (succeeded : stores = true)

/-- The end of both calls. -/
theorem storeKey_makes (store : KeyStore) (algo : Int) (desc : Option CString)
    (priv pub : CString) (run : EntryRun) :
    Makes store (run.memory && run.copies) (storeKey store algo desc priv pub run) := by
  obtain ⟨memory, copies, now⟩ := run
  cases memory with
  | false => exact .refused _ rfl rfl
  | true =>
    cases copies with
    | false => exact .lost _ rfl rfl
    | true => exact .stored _ rfl rfl rfl rfl

/-- A check in front of the rest of a call. -/
theorem Makes.guarded {store : KeyStore} {passes stores : Bool} {code : Int}
    {result : KeyStore × Except Int UInt32} (rest : Makes store stores result) :
    Makes store (passes && stores) (if !passes then (store, .error code) else result) := by
  cases passes with
  | false => exact .refused code rfl rfl
  | true => exact rest

/-- Generating a key. -/
theorem spGenKeyPair_makes (store : KeyStore) (algo : Int) (desc : Option CString) (given : Bool)
    (run : GenRun) : Makes store (KeyCall.genPair algo desc given run).stores
      (spGenKeyPair store algo desc given run) := by
  unfold spGenKeyPair KeyCall.stores
  simp only [Bool.and_assoc]
  refine .guarded (.guarded (.guarded (.guarded (.guarded ?_))))
  cases run.texts with
  | none => exact .refused eio rfl rfl
  | some pair => exact storeKey_makes store algo desc pair.1 pair.2 run.entry

/-- Importing a key. -/
theorem spImportKeyPair_makes (store : KeyStore) (algo : Int) (desc privPem : Option CString)
    (given : Bool) (run : ImportRun) :
    Makes store (KeyCall.importPair algo desc privPem given run).stores
      (spImportKeyPair store algo desc privPem given run) := by
  unfold spImportKeyPair KeyCall.stores
  simp only [Bool.and_assoc]
  cases privPem with
  | none => exact .refused einval rfl rfl
  | some priv =>
    rw [Option.isSome_some, Bool.true_and]
    refine .guarded (.guarded (.guarded (.guarded (.guarded (.guarded ?_)))))
    cases run.text with
    | none => exact .refused eio rfl rfl
    | some pub => exact storeKey_makes store algo desc priv pub run.entry

/-! ## Numbers and keys -/

/-- The number that is drawn after some others. -/
def keyNumber (drawn : Nat) : UInt32 := UInt32.ofNat (1 + drawn)

/-- Two draws give the same number when all numbers were drawn between them, once or more. -/
theorem keyNumber_eq_iff {earlier drawn : Nat} (before : earlier ≤ drawn) :
    keyNumber drawn = keyNumber earlier ↔ 2 ^ 32 ∣ drawn - earlier := by
  rw [← UInt32.toNat_inj, keyNumber, keyNumber, UInt32.toNat_ofNat', UInt32.toNat_ofNat']
  omega

/-- The keys that were stored are the ones there and the ones destroyed. -/
structure Ledger (history : KeyHistory) : Prop where
  /-- The counter says how many numbers were drawn. -/
  next : history.store.nextKeyId = keyNumber history.drawn
  /-- Every key had its draw. -/
  past : ∀ earlier ∈ history.born, earlier < history.drawn
  /-- Every key is there or was destroyed. -/
  kept : (history.destroyed ++ history.store.keys.map KeyEntry.keyId).Perm
    (history.born.map keyNumber)
  /-- No number was given twice. -/
  once : (history.born.map keyNumber).Nodup
  /-- A revoked key has its mark. -/
  marked : ∀ entry ∈ history.store.keys, entry.keyId ∈ history.revoked → entry.revoked = true
  /-- A revoked number was given. -/
  named : ∀ keyId ∈ history.revoked, keyId ∈ history.born.map keyNumber

/-- Nothing happened yet. -/
theorem ledger_start : Ledger .start where
  next := rfl
  past _ none := nomatch none
  kept := List.Perm.nil
  once := List.nodup_nil
  marked _ none := nomatch none
  named _ none := nomatch none

section Ledger

variable {history : KeyHistory} (ledger : Ledger history)
include ledger

/-- The numbers of the keys and of the destroyed keys are all different. -/
theorem Ledger.nodup : (history.destroyed ++ history.store.keys.map KeyEntry.keyId).Nodup :=
  ledger.kept.nodup_iff.mpr ledger.once

/-- No two keys have the same number. -/
theorem Ledger.distinct : (history.store.keys.map KeyEntry.keyId).Nodup :=
  (List.nodup_append.mp ledger.nodup).2.1

/-- A destroyed number is not found. -/
theorem Ledger.gone {keyId : UInt32} (destroyed : keyId ∈ history.destroyed)
    (checkRevoked : Bool) : spKeyFind history.store keyId checkRevoked = (enotfound, none) := by
  have absent : history.store.keys.find? (KeyEntry.isKey keyId) = none := by
    rw [List.find?_eq_none]
    intro entry listed matched
    have same : entry.keyId = keyId := beq_iff_eq.mp matched
    exact (List.nodup_append.mp ledger.nodup).2.2 keyId destroyed _ (List.mem_map_of_mem listed)
      same.symm
  rw [spKeyFind, absent]

/-- A revoked number gives no key. -/
theorem Ledger.refused {keyId : UInt32} (revoked : keyId ∈ history.revoked) :
    (spKeyFind history.store keyId true).1 ≠ spOk := by
  unfold spKeyFind
  cases found : history.store.keys.find? (KeyEntry.isKey keyId) with
  | none => exact (by decide : enotfound ≠ spOk)
  | some entry =>
    have same := keyId_of_find found
    have marked := ledger.marked entry (List.mem_of_find?_eq_some found) (same ▸ revoked)
    simp only [marked, Bool.and_self, if_true]
    exact (by decide : eacces ≠ spOk)

/-- Revoking marks the key with the number. -/
theorem Ledger.revokes (keyId : UInt32) :
    (spRevokeKey history.store keyId).1.keys = history.store.keys.map fun entry =>
      if entry.keyId = keyId then { entry with revoked := true } else entry := by
  unfold spRevokeKey spKeyFind
  cases found : history.store.keys.find? (KeyEntry.isKey keyId) with
  | none =>
    have others : ∀ entry ∈ history.store.keys,
        (if entry.keyId = keyId then { entry with revoked := true } else entry) = entry :=
      fun entry listed => if_neg (keyId_ne_of_find found entry listed)
    rw [List.map_congr_left others, List.map_id']
    rfl
  | some entry =>
    have same := keyId_of_find found
    simp only [Bool.false_and, Bool.false_eq_true, if_false, if_true]
    rw [updateFirst_eq_map ledger.distinct found, same]

/-- Destroying takes the key with the number out. -/
theorem Ledger.destroys (keyId : UInt32) :
    (spDestroyKey history.store keyId).1.keys =
      history.store.keys.filter fun entry => entry.keyId ≠ keyId := by
  have same : (fun entry : KeyEntry => decide (entry.keyId ≠ keyId)) =
      fun entry => !KeyEntry.isKey keyId entry := by
    funext entry
    rw [Bool.eq_iff_iff]
    simp [KeyEntry.isKey]
  rw [same]
  unfold spDestroyKey
  cases found : history.store.keys.find? (KeyEntry.isKey keyId) with
  | none =>
    have absent := List.find?_eq_none.mp found
    have missing : history.store.keys.any (KeyEntry.isKey keyId) = false := by
      rw [List.any_eq_false]
      exact absent
    rw [missing, List.filter_eq_self.mpr fun entry listed => by simpa using absent entry listed]
    rfl
  | some entry =>
    have listed := List.mem_of_find?_eq_some found
    have matched := List.find?_some found
    have unique : ∀ first ∈ history.store.keys, ∀ second ∈ history.store.keys,
        KeyEntry.isKey keyId first = true → KeyEntry.isKey keyId second = true →
          first = second := by
      intro first one second two matched also
      exact List.inj_on_of_nodup_map ledger.distinct one two
        ((beq_iff_eq.mp matched).trans (beq_iff_eq.mp also).symm)
    have erased := (find?_eraseP_of_unique ledger.distinct.of_map unique listed matched).2
    rw [if_pos (List.any_eq_true.mpr ⟨entry, listed, matched⟩)]
    exact erased

/-- What the ledger says is what users rely on. -/
theorem Ledger.identified : Identified history where
  distinct := ledger.distinct
  gone _ destroyed := ledger.gone destroyed
  unsigned keyId revoked tools data given cap run := by
    have refused := ledger.refused revoked
    unfold spSign
    cases data with
    | none => exact (by decide : einval ≠ spOk)
    | some data =>
      cases given with
      | false => exact (by decide : einval ≠ spOk)
      | true =>
        cases result : spKeyFind history.store keyId true with
        | mk rc entry =>
          rw [result] at refused
          cases entry with
          | none => exact refused
          | some entry =>
            simp only [Bool.not_true, Bool.false_eq_true, if_false, if_pos refused]
            exact refused
  unverified keyId revoked tools data signature given run written := by
    have refused := ledger.refused revoked
    unfold spVerify
    cases data with
    | none => exact (by decide : einval ≠ spOk)
    | some data =>
      cases signature with
      | none => exact (by decide : einval ≠ spOk)
      | some signature =>
        cases given with
        | false => exact (by decide : einval ≠ spOk)
        | true =>
          cases result : spKeyFind history.store keyId true with
          | mk rc entry =>
            rw [result] at refused
            cases entry with
            | none => exact refused
            | some entry =>
              simp only [Bool.not_true, Bool.false_eq_true, if_false, if_pos refused]
              exact refused
  unpublished keyId revoked given cap := by
    have refused := ledger.refused revoked
    unfold spGetPublicKey
    cases given with
    | false => exact (by decide : einval ≠ spOk)
    | true =>
      cases result : spKeyFind history.store keyId true with
      | mk rc entry =>
        rw [result] at refused
        cases entry with
        | none => exact refused
        | some entry =>
          simp only [Bool.not_true, Bool.false_eq_true, if_false, if_neg refused]
          exact refused
  revokes := ledger.revokes
  destroys := ledger.destroys

end Ledger

/-! ## What a call keeps -/

/-- A counter that goes on shows another number. -/
theorem next_ne (number : UInt32) : number + 1 ≠ number := by
  intro same
  have values := congrArg UInt32.toNat same
  rw [UInt32.toNat_add] at values
  have bound := number.toNat_lt
  have one : (1 : UInt32).toNat = 1 := rfl
  omega

/-- The next number. -/
theorem keyNumber_succ (drawn : Nat) : keyNumber drawn + 1 = keyNumber (drawn + 1) := by
  rw [keyNumber, keyNumber, ← Nat.add_assoc]
  exact (UInt32.ofNat_add (1 + drawn) 1).symm

/-- The history after a number was drawn for nothing. -/
theorem make_lost {history : KeyHistory} {code : Int} :
    history.make ({ history.store with nextKeyId := history.store.nextKeyId + 1 }, .error code) =
      { history with
        store := { history.store with nextKeyId := history.store.nextKeyId + 1 }
        drawn := history.drawn + 1 } := by
  rw [KeyHistory.make, if_neg (next_ne _)]

/-- The history after a key was stored. -/
theorem make_stored {history : KeyHistory} (entry : KeyEntry) :
    history.make (⟨entry :: history.store.keys, history.store.nextKeyId + 1⟩, .ok entry.keyId) =
      { history with
        store := ⟨entry :: history.store.keys, history.store.nextKeyId + 1⟩
        drawn := history.drawn + 1
        born := history.drawn :: history.born } := by
  rw [KeyHistory.make, if_neg (next_ne _)]

/-- Making a key keeps the ledger when its number is new. -/
theorem Ledger.make {history : KeyHistory} (ledger : Ledger history) {stores : Bool}
    {result : KeyStore × Except Int UInt32} (makes : Makes history.store stores result)
    (fresh : stores = true → ∀ earlier ∈ history.born, ¬ 2 ^ 32 ∣ history.drawn - earlier) :
    Ledger (history.make result) := by
  have next : history.store.nextKeyId + 1 = keyNumber (history.drawn + 1) := by
    rw [ledger.next, keyNumber_succ]
  cases makes with
  | refused code done =>
    have same : history.make result = history := by
      rw [done, KeyHistory.make, if_pos rfl]
    rw [same]
    exact ledger
  | lost code done =>
    rw [done, make_lost]
    exact { ledger with
      next := next
      past := fun earlier member => Nat.lt_succ_of_lt (ledger.past earlier member) }
  | stored entry numbered active done succeeded =>
    have unknown : keyNumber history.drawn ∉ history.born.map keyNumber := by
      intro known
      obtain ⟨earlier, member, same⟩ := List.mem_map.mp known
      have before := Nat.le_of_lt (ledger.past earlier member)
      exact fresh succeeded earlier member ((keyNumber_eq_iff before).mp same.symm)
    have number : entry.keyId = keyNumber history.drawn := numbered.trans ledger.next
    rw [done, make_stored]
    constructor
    · exact next
    · intro earlier member
      rcases List.mem_cons.mp member with rfl | old
      · exact Nat.lt_succ_self _
      · exact Nat.lt_succ_of_lt (ledger.past earlier old)
    · show (history.destroyed ++ entry.keyId :: history.store.keys.map KeyEntry.keyId).Perm
        (keyNumber history.drawn :: history.born.map keyNumber)
      rw [number]
      exact List.perm_middle.trans (ledger.kept.cons _)
    · exact List.nodup_cons.mpr ⟨unknown, ledger.once⟩
    · intro other listed revoked
      rcases List.mem_cons.mp listed with rfl | old
      · rw [number] at revoked
        exact absurd (ledger.named _ revoked) unknown
      · exact ledger.marked other old revoked
    · exact fun keyId revoked => List.mem_cons_of_mem _ (ledger.named keyId revoked)

/-- Storing a key under a number that was given is noticed. -/
theorem not_identified_of_wrapped {history : KeyHistory} (ledger : Ledger history)
    {result : KeyStore × Except Int UInt32} (makes : Makes history.store true result)
    {earlier : Nat} (member : earlier ∈ history.born)
    (wrapped : 2 ^ 32 ∣ history.drawn - earlier) : ¬ Identified (history.make result) := by
  intro identified
  cases makes with
  | refused code done failed => cases failed
  | lost code done failed => cases failed
  | stored entry numbered active done succeeded =>
    rw [done, make_stored] at identified
    have before := Nat.le_of_lt (ledger.past earlier member)
    have number : entry.keyId = keyNumber earlier := by
      rw [numbered, ledger.next]
      exact (keyNumber_eq_iff before).mpr wrapped
    have known := ledger.kept.mem_iff.mpr (List.mem_map_of_mem (f := keyNumber) member)
    rw [← number] at known
    rcases List.mem_append.mp known with destroyed | there
    · have gone := identified.gone _ destroyed false
      have matched : KeyEntry.isKey entry.keyId entry = true := beq_self_eq_true _
      simp [spKeyFind, List.find?_cons_of_pos matched] at gone
    · exact (List.nodup_cons.mp identified.distinct).1 there

/-- Revoking keeps the ledger. -/
theorem Ledger.revoke {history : KeyHistory} (ledger : Ledger history) (keyId : UInt32) :
    Ledger (history.step (.revoke keyId)) := by
  cases found : history.store.keys.find? (KeyEntry.isKey keyId) with
  | none =>
    have same : history.step (.revoke keyId) = history := by
      simp [KeyHistory.step, spRevokeKey, spKeyFind, found, (by decide : ¬ enotfound = spOk)]
    rw [same]
    exact ledger
  | some entry =>
    have keys := ledger.revokes keyId
    have done : spRevokeKey history.store keyId =
        ({ history.store with keys := (spRevokeKey history.store keyId).1.keys }, spOk) := by
      simp [spRevokeKey, spKeyFind, found]
    have next : history.step (.revoke keyId) = { history with
        store := { history.store with keys := history.store.keys.map fun entry =>
          if entry.keyId = keyId then { entry with revoked := true } else entry }
        revoked := keyId :: history.revoked } := by
      rw [KeyHistory.step, done, keys]
      rfl
    have numbers : (history.store.keys.map fun entry =>
        if entry.keyId = keyId then { entry with revoked := true } else entry).map
          KeyEntry.keyId = history.store.keys.map KeyEntry.keyId := by
      rw [List.map_map]
      refine List.map_congr_left fun entry _ => ?_
      show (if _ then _ else _ : KeyEntry).keyId = _
      split <;> rfl
    have given : keyId ∈ history.born.map keyNumber := by
      refine ledger.kept.mem_iff.mp (List.mem_append_right _ ?_)
      exact keyId_of_find found ▸ List.mem_map_of_mem (List.mem_of_find?_eq_some found)
    rw [next]
    refine { ledger with kept := ?_, marked := ?_, named := ?_ }
    · show (history.destroyed ++ List.map KeyEntry.keyId _).Perm _
      rw [numbers]
      exact ledger.kept
    · intro other listed revoked
      obtain ⟨before, member, rfl⟩ := List.mem_map.mp listed
      by_cases same : before.keyId = keyId
      · rw [if_pos same]
      · rw [if_neg same] at revoked ⊢
        rcases List.mem_cons.mp revoked with now | old
        · exact absurd now same
        · exact ledger.marked before member old
    · intro other revoked
      rcases List.mem_cons.mp revoked with rfl | old
      · exact given
      · exact ledger.named other old

/-- Destroying keeps the ledger. -/
theorem Ledger.destroy {history : KeyHistory} (ledger : Ledger history) (keyId : UInt32) :
    Ledger (history.step (.destroy keyId)) := by
  cases there : history.store.keys.any (KeyEntry.isKey keyId) with
  | false =>
    have same : history.step (.destroy keyId) = history := by
      simp [KeyHistory.step, spDestroyKey, there, (by decide : ¬ enotfound = spOk)]
    rw [same]
    exact ledger
  | true =>
    have next : history.step (.destroy keyId) = { history with
        store := { history.store with
          keys := history.store.keys.eraseP (KeyEntry.isKey keyId) }
        destroyed := keyId :: history.destroyed } := by
      simp [KeyHistory.step, spDestroyKey, there]
    obtain ⟨entry, listed, matched⟩ := List.any_eq_true.mp there
    obtain ⟨gone, front, back, -, number, split, erased⟩ := List.exists_of_eraseP listed matched
    have same : gone.keyId = keyId := beq_iff_eq.mp number
    rw [next]
    refine { ledger with kept := ?_, marked := ?_ }
    · have kept := ledger.kept
      rw [split, List.map_append, List.map_cons, same] at kept
      show (keyId :: history.destroyed ++ List.map KeyEntry.keyId _).Perm _
      rw [erased, List.map_append]
      refine List.Perm.trans ?_ kept
      rw [List.cons_append, ← List.append_assoc, ← List.append_assoc]
      exact List.perm_middle.symm
    · exact fun other member => ledger.marked other (List.mem_of_mem_eraseP member)

/-- Every call keeps the ledger that stores no key under a number that was given. -/
theorem Ledger.step {history : KeyHistory} (ledger : Ledger history) (call : KeyCall)
    (unwrapped : Unwrapped history call) : Ledger (history.step call) := by
  cases call with
  | genPair algo desc given run => exact ledger.make (spGenKeyPair_makes _ _ _ _ _) unwrapped
  | importPair algo desc privPem given run =>
    exact ledger.make (spImportKeyPair_makes _ _ _ _ _ _) unwrapped
  | revoke keyId => exact ledger.revoke keyId
  | destroy keyId => exact ledger.destroy keyId

/-! ## Every run -/

/-- In every state of a run the numbers identify the keys exactly when no key is stored after all
numbers have been drawn, once or several times, since an earlier one. -/
theorem identified_iff_unwrapped (calls : List KeyCall) :
    AllStates KeyHistory.step Identified .start calls ↔
      AllSteps KeyHistory.step Unwrapped .start calls := by
  refine allStates_iff_allSteps (fun _ ledger => ledger.identified)
    (fun _ call ledger unwrapped => ledger.step call unwrapped) ?_ ledger_start
    (allSteps_of_forall (fun _ _ => trivial) _ calls)
  intro history call ledger _ wrapped
  simp only [Unwrapped, not_forall, not_not] at wrapped
  obtain ⟨stores, earlier, member, wrapped⟩ := wrapped
  cases call with
  | genPair algo desc given run =>
    have makes := spGenKeyPair_makes history.store algo desc given run
    rw [stores] at makes
    exact not_identified_of_wrapped ledger makes member wrapped
  | importPair algo desc privPem given run =>
    have makes := spImportKeyPair_makes history.store algo desc privPem given run
    rw [stores] at makes
    exact not_identified_of_wrapped ledger makes member wrapped
  | revoke keyId => cases stores
  | destroy keyId => cases stores

/-- A key is generated and everything works. -/
def plainGen : KeyCall :=
  .genPair 0 none true ⟨true, true, true, some ([1], [1]), ⟨true, true, 0⟩⟩

/-- The key that `plainGen` stores under a number. -/
def plainKey (keyId : UInt32) : KeyEntry := ⟨keyId, 0, Field.copy [], [1], [1], false, 0⟩

/-- A key is kept, and others are generated and destroyed at once. -/
def generateAndDestroy (count : Nat) : List KeyCall :=
  plainGen :: (List.range count).flatMap fun index => [plainGen, .destroy (keyNumber (index + 1))]

/-- What `plainGen` does to the store. -/
theorem step_plainGen (history : KeyHistory) : (history.step plainGen).store =
    ⟨plainKey history.store.nextKeyId :: history.store.keys, history.store.nextKeyId + 1⟩ := rfl

/-- The store after any number of turns: one key, and the counter has moved on. -/
theorem store_generateAndDestroy (count : Nat) :
    (run KeyHistory.step .start (generateAndDestroy count)).store =
      ⟨[plainKey 1], keyNumber (count + 1)⟩ := by
  induction count with
  | zero => rfl
  | succ count ih =>
    have turns : generateAndDestroy (count + 1) = generateAndDestroy count ++
        [plainGen, .destroy (keyNumber (count + 1))] := by
      rw [generateAndDestroy, List.range_succ, List.flatMap_append, generateAndDestroy,
        List.cons_append]
      rfl
    have matched : KeyEntry.isKey (keyNumber (count + 1)) (plainKey (keyNumber (count + 1))) =
        true := beq_self_eq_true _
    rw [turns, run_append]
    generalize run KeyHistory.step .start (generateAndDestroy count) = history at ih
    have made := step_plainGen history
    rw [ih, keyNumber_succ] at made
    show (spDestroyKey (history.step plainGen).store (keyNumber (count + 1))).1 = _
    rw [made, spDestroyKey, if_pos (by simp [matched])]
    simp only [List.eraseP_cons_of_pos matched]

/-- A key is kept while all other numbers are drawn; the next key gets its number. -/
theorem wrapped_number_repeats :
    ¬ (∀ calls : List KeyCall, AllStates KeyHistory.step Identified .start calls) ∧
      (run KeyHistory.step .start (generateAndDestroy (2 ^ 32 - 1) ++ [plainGen])).store.keys =
        [plainKey 1, plainKey 1] := by
  have twice : (run KeyHistory.step .start
      (generateAndDestroy (2 ^ 32 - 1) ++ [plainGen])).store.keys = [plainKey 1, plainKey 1] := by
    have before := store_generateAndDestroy (2 ^ 32 - 1)
    have wrapped : keyNumber (2 ^ 32 - 1 + 1) = 1 := by decide
    rw [wrapped] at before
    rw [run_append, run_cons, run_nil, step_plainGen, before]
  refine ⟨fun always => ?_, twice⟩
  have distinct := (always (generateAndDestroy (2 ^ 32 - 1) ++ [plainGen])).last.distinct
  rw [twice] at distinct
  exact (List.nodup_cons.mp distinct).1 List.mem_cons_self

end HwrunOs.Sp
