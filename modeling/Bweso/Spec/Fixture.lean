import Mathlib.Data.List.Forall2
import Bweso.Spec.Cipher

/-! The independent encoder of `scripts/vaultwarden-smoke.py`, which sets up an
account and its items for the interoperability test. A random IV is any IV, so
what the encoder writes for a value is a relation. -/

namespace Bweso

namespace Fixture

variable (prim : Primitives)

/-- `key[:32]` and `key[32:]` -/
def halves (key : ByteArr 64) : AuthenticatedSymmetricKey :=
  { encryptionKey := ⟨key.toList.take 32, by simp⟩
    authenticationKey := ⟨key.toList.drop 32, by simp⟩ }

/-- `encrypt` with the IV it drew. -/
def encrypt (key : ByteArr 64) (iv : ByteArr 16) (plain : Bytes) : Str :=
  let data := Cbc.encryptPadded prim.aes256 (halves key).encryptionKey iv plain
  let mac := prim.hmacSha256 (halves key).authenticationKey.toList (iv.toList ++ data)
  "2.".toList ++ Base64.encode iv.toList ++ '|' :: Base64.encode data ++ '|' :: Base64.encode mac.toList

/-- `s` is what the encoder writes for a text. -/
def EncodesText (key : ByteArr 64) (s text : Str) : Prop := ∃ iv, s = encrypt prim key iv (asBytes text)

/-- The master key of an account. -/
def master (password email : Str) : KdfConfig → Option (ByteArr 32)
  | .pbkdf2Sha256 iterations =>
    some (prim.pbkdf2HmacSha256 (asBytes password) (asBytes email) iterations)
  | .argon2id iterations memoryMib parallelism =>
    prim.argon2id ⟨memoryMib * 1024, iterations, parallelism⟩ (asBytes password)
      (prim.sha256 (asBytes email)).toList

/-- `hmac(master, b"enc\x01") + hmac(master, b"mac\x01")` -/
def wrapping (master : ByteArr 32) : ByteArr 64 :=
  prim.hmacSha256 master.toList (asBytes "enc".toList ++ [1]) ++
    prim.hmacSha256 master.toList (asBytes "mac".toList ++ [1])

/-! ### Items -/

/-- Each present text encoded, each absent one absent. -/
abbrev EncodesOptional (key : ByteArr 64) : Option Str → Option Str → Prop :=
  Option.Rel (EncodesText prim key)

structure EncodesField (key : ByteArr 64) (e : EncryptedField) (d : DecryptedField) : Prop where
  name : EncodesOptional prim key e.name d.name
  value : EncodesOptional prim key e.value d.value
  fieldType : e.fieldType = d.fieldType

structure EncodesLogin (key : ByteArr 64) (e : EncryptedLogin) (d : DecryptedLogin) : Prop where
  username : EncodesOptional prim key e.username d.username
  password : EncodesOptional prim key e.password d.password
  totp : EncodesOptional prim key e.totp d.totp

structure EncodesSshKey (key : ByteArr 64) (e : EncryptedSshKey) (d : DecryptedSshKey) : Prop where
  privateKey : EncodesOptional prim key e.privateKey d.privateKey
  publicKey : EncodesOptional prim key e.publicKey d.publicKey
  keyFingerprint : EncodesOptional prim key e.keyFingerprint d.keyFingerprint

/-- The item key, when there is one, encoded under the user key. -/
abbrev EncodesItemKey (userKey : ByteArr 64) : Option Str → Option (ByteArr 64) → Prop :=
  Option.Rel fun s itemKey => ∃ iv, s = encrypt prim userKey iv itemKey.toList

/-- An item with its texts under the item key, or under the user key without one. -/
structure EncodesItem (userKey : ByteArr 64) (itemKey : Option (ByteArr 64)) (e : EncryptedCipher)
    (d : DecryptedCipher) : Prop where
  id : e.id = d.id
  cipherType : e.cipherType = d.cipherType
  organizationId : e.organizationId = d.organizationId
  key : EncodesItemKey prim userKey e.key itemKey
  name : EncodesOptional prim (itemKey.getD userKey) e.name d.name
  notes : EncodesOptional prim (itemKey.getD userKey) e.notes d.notes
  fields : List.Forall₂ (EncodesField prim (itemKey.getD userKey)) e.fields d.fields
  login : Option.Rel (EncodesLogin prim (itemKey.getD userKey)) e.login d.login
  sshKey : Option.Rel (EncodesSshKey prim (itemKey.getD userKey)) e.sshKey d.sshKey

end Fixture

end Bweso
