import Bweso.Proofs.Format
import Bweso.Sanity.Crypto
import Bweso.Spec.Fixture

/-! The decryption chain undoes the fixture encoder: from the password to the
user key, and from an encoded item to the item. -/

namespace Bweso

open Fixture

/-! ### One encrypted string -/

section
variable {prim : Primitives}

/-- What parsing gives back of an encoded value. -/
def encrypted (prim : Primitives) (key : ByteArr 64) (iv : ByteArr 16) (plain : Bytes) : EncryptedString :=
  let data := Cbc.encryptPadded prim.aes256 (halves key).encryptionKey iv plain
  { encryptionType := .aesCbc256HmacSha256B64, iv, data
    mac := (prim.hmacSha256 (halves key).authenticationKey.toList (iv.toList ++ data)).toList }

theorem fromStr_encrypt (key : ByteArr 64) (iv : ByteArr 16) (plain : Bytes) :
    EncryptedString.fromStr (encrypt prim key iv plain) = .ok (encrypted prim key iv plain) := by
  have htext : encrypt prim key iv plain = formatPieces "2".toList (encrypted prim key iv plain).iv.toList
      (encrypted prim key iv plain).data (encrypted prim key iv plain).mac := by
    simp [encrypt, encrypted, formatPieces]
  rw [htext]
  refine fromStr_formatPieces ⟨[], 0, Or.inl rfl, rfl⟩ _ (by simp [encrypted]) ?_ ?_
  · exact Cbc.encryptPadded_ne_nil (by decide) prim.aes256 (halves key).encryptionKey iv plain
  · exact Cbc.encryptPadded_dvd prim.aes256 (halves key).encryptionKey iv plain

theorem decryptBytes_encrypted (key : ByteArr 64) (iv : ByteArr 16) (plain : Bytes) :
    (encrypted prim key iv plain).decryptBytes prim (halves key) = .ok plain := by
  unfold EncryptedString.decryptBytes
  have hmac : verifyMac prim (halves key).authenticationKey.toList (encrypted prim key iv plain).iv.toList
      (encrypted prim key iv plain).data (encrypted prim key iv plain).mac = .ok () := by
    simp [verifyMac, encrypted]
  have hplain : Cbc.decryptPadded prim.aes256 (halves key).encryptionKey (encrypted prim key iv plain).iv
      (encrypted prim key iv plain).data = some plain :=
    Cbc.decryptPadded_encryptPadded (by decide) (by decide) prim.aes256 _ iv plain
  rw [hmac, Except.ok_bind, hplain]
  rfl

theorem tryFrom_toList (key : ByteArr 64) :
    AuthenticatedSymmetricKey.tryFrom key.toList = .ok (halves key) := by
  unfold AuthenticatedSymmetricKey.tryFrom
  rw [dif_pos key.toList_length]
  rfl

/-! ### Items -/

theorem decryptOptional_encoded {key : ByteArr 64} {s text : Option Str}
    (h : EncodesOptional prim key s text) : decryptOptional prim s (halves key) = .ok text := by
  cases h with
  | none => rfl
  | some h =>
    obtain ⟨iv, rfl⟩ := h
    simp only [decryptOptional, fromStr_encrypt, Except.ok_bind, EncryptedString.decryptUtf8,
      decryptBytes_encrypted, fromUtf8_asBytes]
    rfl

theorem decryptField_encoded {key : ByteArr 64} {e : EncryptedField} {d : DecryptedField}
    (h : EncodesField prim key e d) : e.decrypt prim (halves key) = .ok d := by
  unfold EncryptedField.decrypt
  rw [decryptOptional_encoded h.name, Except.ok_bind, decryptOptional_encoded h.value, Except.ok_bind,
    h.fieldType]
  rfl

theorem decryptFields_encoded {key : ByteArr 64} {es : List EncryptedField} {ds : List DecryptedField}
    (h : List.Forall₂ (EncodesField prim key) es ds) : decryptFields prim (halves key) es = .ok ds := by
  induction h with
  | nil => rfl
  | cons hd _ ih =>
    unfold decryptFields
    rw [decryptField_encoded hd, Except.ok_bind, ih, Except.ok_bind]
    rfl

theorem decryptMember_encoded {α β : Type} {R : α → β → Prop} {f : α → Except CipherError β}
    (hf : ∀ a b, R a b → f a = .ok b) {a : Option α} {b : Option β} (h : Option.Rel R a b) :
    decryptMember f a = .ok b := by
  cases h with
  | none => rfl
  | some h =>
    rw [decryptMember, hf _ _ h]
    rfl

theorem decryptLogin_encoded {key : ByteArr 64} {e : EncryptedLogin} {d : DecryptedLogin}
    (h : EncodesLogin prim key e d) : e.decrypt prim (halves key) = .ok d := by
  unfold EncryptedLogin.decrypt
  rw [decryptOptional_encoded h.username, Except.ok_bind, decryptOptional_encoded h.password,
    Except.ok_bind, decryptOptional_encoded h.totp, Except.ok_bind]
  rfl

theorem decryptSshKey_encoded {key : ByteArr 64} {e : EncryptedSshKey} {d : DecryptedSshKey}
    (h : EncodesSshKey prim key e d) : e.decrypt prim (halves key) = .ok d := by
  unfold EncryptedSshKey.decrypt
  rw [decryptOptional_encoded h.privateKey, Except.ok_bind, decryptOptional_encoded h.publicKey,
    Except.ok_bind, decryptOptional_encoded h.keyFingerprint, Except.ok_bind]
  rfl

theorem decryptionKey_encoded {userKey : ByteArr 64} {itemKey : Option (ByteArr 64)} {e : EncryptedCipher}
    (h : EncodesItemKey prim userKey e.key itemKey) :
    e.decryptionKey prim (halves userKey) = .ok (halves (itemKey.getD userKey)) := by
  unfold EncryptedCipher.decryptionKey
  generalize e.key = key at h
  cases h with
  | none => rfl
  | some h =>
    obtain ⟨iv, rfl⟩ := h
    simp only [fromStr_encrypt, Except.ok_bind, decryptBytes_encrypted, tryFrom_toList]
    rfl

theorem decrypt_encoded {userKey : ByteArr 64} {itemKey : Option (ByteArr 64)} {e : EncryptedCipher}
    {d : DecryptedCipher} (h : EncodesItem prim userKey itemKey e d) :
    e.decrypt prim (halves userKey) = .ok d := by
  have hlogin := decryptMember_encoded (f := fun l => l.decrypt prim (halves (itemKey.getD userKey)))
    (fun _ _ => decryptLogin_encoded) h.login
  have hsshKey := decryptMember_encoded (f := fun k => k.decrypt prim (halves (itemKey.getD userKey)))
    (fun _ _ => decryptSshKey_encoded) h.sshKey
  unfold EncryptedCipher.decrypt
  rw [decryptionKey_encoded h.key, Except.ok_bind, decryptOptional_encoded h.name, Except.ok_bind,
    decryptOptional_encoded h.notes, Except.ok_bind, decryptFields_encoded h.fields, Except.ok_bind,
    hlogin, Except.ok_bind, hsshKey, Except.ok_bind, h.id, h.cipherType, h.organizationId]
  rfl

/-! ### The user key -/

theorem validateKdfBounds_eq_ok {parameter : Str} {actual minimum maximum : ℕ} {u : Unit} :
    validateKdfBounds parameter actual minimum maximum = .ok u ↔ minimum ≤ actual ∧ actual ≤ maximum := by
  unfold validateKdfBounds
  split_ifs with h1 h2
  · simp; omega
  · simp; omega
  · simp; omega

/-- The provider derives the master key the encoder derived. -/
theorem deriveMasterKey_master {password email : Str} {kdf : KdfConfig} {key : ByteArr 32}
    (hpassword : password ≠ []) (htrim : trim email = email) (hlower : prim.toLowercase email = email)
    (hkdf : kdf.validateForPrelogin = .ok ()) (hmaster : master prim password email kdf = some key) :
    deriveMasterKey prim password email kdf = .ok ⟨key⟩ := by
  have hsalt : normalizeMasterPasswordSalt prim email = email := by
    rw [normalizeMasterPasswordSalt, htrim, hlower]
  unfold deriveMasterKey
  simp only [List.isEmpty_iff, hpassword, if_false, hkdf, Except.ok_bind]
  cases kdf with
  | pbkdf2Sha256 iterations =>
    simp only [master, Option.some.injEq] at hmaster
    simp only [hsalt, hmaster]
    rfl
  | argon2id iterations memoryMib parallelism =>
    simp only [KdfConfig.validateForPrelogin, Except.bind_eq_ok, validateKdfBounds_eq_ok] at hkdf
    obtain ⟨_, hiter, _, hmem, hpar⟩ := hkdf
    have hmul : checkedMulU32 memoryMib 1024 = some (memoryMib * 1024) := by
      rw [checkedMulU32, if_pos (by omega)]
    have hparams : Argon2Params.new (memoryMib * 1024) iterations parallelism =
        some ⟨memoryMib * 1024, iterations, parallelism⟩ := by
      rw [Argon2Params.new, if_pos (by omega)]
    simp only [master] at hmaster
    simp only [hmul, hparams, hsalt, hmaster]
    rfl

/-- HKDF-Expand to one block is one keyed hash of the label and the counter. -/
theorem hkdfExpand_block (prk info : Bytes) :
    hkdfExpand prim prk info 32 = some (prim.hmacSha256 prk (info ++ [1])).toList := by
  simp [hkdfExpand, hkdfBlocks]

theorem stretchMasterKey_wrapping (key : ByteArr 32) :
    stretchMasterKey prim ⟨key⟩ = .ok (halves (wrapping prim key)) := by
  have htry := tryFrom_toList (wrapping prim key)
  rw [wrapping, List.Vector.toList_append] at htry
  unfold stretchMasterKey
  simp only [hkdfExpand_block, htry]
  rfl

theorem unlockUserKey_encoded {password email : Str} {kdf : KdfConfig} {key : ByteArr 32}
    (hpassword : password ≠ []) (htrim : trim email = email) (hlower : prim.toLowercase email = email)
    (hkdf : kdf.validateForPrelogin = .ok ()) (hmaster : master prim password email kdf = some key)
    (userKey : ByteArr 64) (iv : ByteArr 16) :
    MasterPasswordUnlockData.unlockUserKey prim
        ⟨email, kdf, encrypt prim (wrapping prim key) iv userKey.toList⟩ password = .ok (halves userKey) := by
  unfold MasterPasswordUnlockData.unlockUserKey unwrapUserKeyWithMasterKey
  rw [deriveMasterKey_master hpassword htrim hlower hkdf hmaster, Except.ok_bind, stretchMasterKey_wrapping,
    Except.ok_bind, fromStr_encrypt]
  simp only [Except.mapError, Except.ok_bind, decryptBytes_encrypted, tryFrom_toList]

end

/-- Unlocking the wrapped user key gives that user key, and with it every item
the encoder wrote, with or without an item key and under any IVs, decrypts to
the original. -/
theorem decryption_undoes_encoder (prim : Primitives) (password email : Str) (kdf : KdfConfig)
    (masterKey : ByteArr 32) (userKey : ByteArr 64) (iv : ByteArr 16) (hpassword : password ≠ [])
    (htrim : trim email = email) (hlower : prim.toLowercase email = email)
    (hkdf : kdf.validateForPrelogin = .ok ())
    (hmaster : master prim password email kdf = some masterKey) :
    MasterPasswordUnlockData.unlockUserKey prim
        ⟨email, kdf, encrypt prim (wrapping prim masterKey) iv userKey.toList⟩ password =
      .ok (halves userKey) ∧
    ∀ itemKey e d, EncodesItem prim userKey itemKey e d → e.decrypt prim (halves userKey) = .ok d :=
  ⟨unlockUserKey_encoded hpassword htrim hlower hkdf hmaster userKey iv,
    fun _ _ _ h => decrypt_encoded h⟩

/-- On the test vectors: the wrapped key and the note of an account, as literals. -/
theorem decryption_undoes_encoder_vectors :
    MasterPasswordUnlockData.unlockUserKey vectors.primitives
        ⟨"user@example.test".toList, .pbkdf2Sha256 5000, vectorWrappedKey⟩ "correct horse".toList =
      .ok (halves vectorUserKey) ∧
    vectorCipher.decrypt vectors.primitives (halves vectorUserKey) = .ok vectorItem := by
  have hwrapped : encrypt vectors.primitives (wrapping vectors.primitives vectorMasterKey)
      (.ofBase64 16 "EBESExQVFhcYGRobHB0eHw==") vectorUserKey.toList = vectorWrappedKey := by decide +kernel
  have hsecret : encrypt vectors.primitives vectorUserKey (.ofBase64 16 "QEFCQ0RFRkdISUpLTE1OTw==")
      (asBytes "s3cret".toList) = vectorSecret := by decide +kernel
  obtain ⟨hunlock, hitems⟩ := decryption_undoes_encoder vectors.primitives "correct horse".toList
    "user@example.test".toList (.pbkdf2Sha256 5000) vectorMasterKey vectorUserKey
    (.ofBase64 16 "EBESExQVFhcYGRobHB0eHw==") (by decide) (by decide) (by decide) (by decide)
    (by decide)
  rw [hwrapped] at hunlock
  refine ⟨hunlock, hitems none vectorCipher vectorItem ⟨rfl, rfl, rfl, .none, .none, ?_, .nil, .none, .none⟩⟩
  exact .some ⟨_, hsecret.symm⟩

end Bweso
