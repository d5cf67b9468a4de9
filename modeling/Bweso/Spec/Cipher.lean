import Bweso.Spec.Crypto

/-! `cipher.rs`: encrypted items, their decryption, and the two ways a value is
taken out of a decrypted item. -/

namespace Bweso

/-- Encrypted custom field. -/
structure EncryptedField where
  name : Option Str
  value : Option Str
  fieldType : Option ℕ
  deriving DecidableEq

structure EncryptedLogin where
  username : Option Str
  password : Option Str
  totp : Option Str
  deriving DecidableEq

structure EncryptedSshKey where
  privateKey : Option Str
  publicKey : Option Str
  keyFingerprint : Option Str
  deriving DecidableEq

/-- Encrypted cipher as returned by sync. -/
structure EncryptedCipher where
  id : Str
  cipherType : ℕ
  organizationId : Option Str
  /-- Soft-deleted items must not remain usable as source secrets. -/
  deletedDate : Option Str
  /-- Optional per-cipher key, wrapped by the user key. -/
  key : Option Str
  name : Option Str
  notes : Option Str
  fields : List EncryptedField
  login : Option EncryptedLogin
  sshKey : Option EncryptedSshKey
  deriving DecidableEq

structure DecryptedField where
  name : Option Str
  value : Option Str
  fieldType : Option ℕ
  deriving DecidableEq

structure DecryptedLogin where
  username : Option Str
  password : Option Str
  totp : Option Str
  deriving DecidableEq

structure DecryptedSshKey where
  privateKey : Option Str
  publicKey : Option Str
  keyFingerprint : Option Str
  deriving DecidableEq

/-- Decrypted cipher ready for field extraction. -/
structure DecryptedCipher where
  id : Str
  cipherType : ℕ
  organizationId : Option Str
  name : Option Str
  notes : Option Str
  fields : List DecryptedField
  login : Option DecryptedLogin
  sshKey : Option DecryptedSshKey
  deriving DecidableEq

inductive CipherError
  | crypto (e : CryptoError)
  | blankProperty
  | missingProperty (property : Str)
  | noExtractableFields (id : Str)
  | duplicateDocumentField (field : Str)
  | unsupportedAttachment
  deriving DecidableEq

/-! ### Decryption -/

section
variable (prim : Primitives)

def decryptOptional (value : Option Str) (key : AuthenticatedSymmetricKey) :
    Except CipherError (Option Str) :=
  match value with
  | none => .ok none
  | some encrypted =>
    ((EncryptedString.fromStr encrypted >>= fun e => e.decryptUtf8 prim key).map some).mapError .crypto

def EncryptedField.decrypt (f : EncryptedField) (key : AuthenticatedSymmetricKey) :
    Except CipherError DecryptedField := do
  let name ← decryptOptional prim f.name key
  let value ← decryptOptional prim f.value key
  return { name, value, fieldType := f.fieldType }

def EncryptedLogin.decrypt (l : EncryptedLogin) (key : AuthenticatedSymmetricKey) :
    Except CipherError DecryptedLogin := do
  let username ← decryptOptional prim l.username key
  let password ← decryptOptional prim l.password key
  let totp ← decryptOptional prim l.totp key
  return { username, password, totp }

def EncryptedSshKey.decrypt (k : EncryptedSshKey) (key : AuthenticatedSymmetricKey) :
    Except CipherError DecryptedSshKey := do
  let privateKey ← decryptOptional prim k.privateKey key
  let publicKey ← decryptOptional prim k.publicKey key
  let keyFingerprint ← decryptOptional prim k.keyFingerprint key
  return { privateKey, publicKey, keyFingerprint }

/-- `iter().map(..).collect::<Result<Vec<_>, _>>()`: in order, up to the first error. -/
def decryptFields (key : AuthenticatedSymmetricKey) :
    List EncryptedField → Except CipherError (List DecryptedField)
  | [] => .ok []
  | f :: fs => do
    let d ← f.decrypt prim key
    let ds ← decryptFields key fs
    return d :: ds

/-- `Option::map(..).transpose()?` -/
def decryptMember {α β : Type} (f : α → Except CipherError β) : Option α → Except CipherError (Option β)
  | none => .ok none
  | some a => (f a).map some

/-- The key the members are encrypted under: the item's own key when it has
one, unwrapped by the user key, and the user key otherwise. -/
def EncryptedCipher.decryptionKey (c : EncryptedCipher) (key : AuthenticatedSymmetricKey) :
    Except CipherError AuthenticatedSymmetricKey :=
  match c.key with
  | none => .ok key
  | some wrappedKey => (do
      let encrypted ← EncryptedString.fromStr wrappedKey
      let plain ← encrypted.decryptBytes prim key
      AuthenticatedSymmetricKey.tryFrom plain).mapError .crypto

def EncryptedCipher.decrypt (c : EncryptedCipher) (key : AuthenticatedSymmetricKey) :
    Except CipherError DecryptedCipher := do
  let decryptionKey ← c.decryptionKey prim key
  let name ← decryptOptional prim c.name decryptionKey
  let notes ← decryptOptional prim c.notes decryptionKey
  let fields ← decryptFields prim decryptionKey c.fields
  let login ← decryptMember (fun l => l.decrypt prim decryptionKey) c.login
  let sshKey ← decryptMember (fun k => k.decrypt prim decryptionKey) c.sshKey
  return { id := c.id, cipherType := c.cipherType, organizationId := c.organizationId,
           name, notes, fields, login, sshKey }

end

/-! ### Extraction -/

def existing (property : Str) (value : Option Str) : Except CipherError Str :=
  match value with
  | some v => .ok v
  | none => .error (.missingProperty property)

/-- The conventional member a property name stands for, if it stands for one. -/
def DecryptedCipher.conventional (c : DecryptedCipher) (property : Str) : Option (Option Str) :=
  if property = "name".toList then some c.name
  else if property = "notes".toList then some c.notes
  else if property = "username".toList ∨ property = "login.username".toList then
    some (c.login.bind DecryptedLogin.username)
  else if property = "password".toList ∨ property = "login.password".toList then
    some (c.login.bind DecryptedLogin.password)
  else if property = "totp".toList ∨ property = "login.totp".toList then
    some (c.login.bind DecryptedLogin.totp)
  else if property = "privateKey".toList ∨ property = "sshPrivateKey".toList ∨
      property = "sshKey.privateKey".toList then some (c.sshKey.bind DecryptedSshKey.privateKey)
  else if property = "publicKey".toList ∨ property = "sshPublicKey".toList ∨
      property = "sshKey.publicKey".toList then some (c.sshKey.bind DecryptedSshKey.publicKey)
  else if property = "keyFingerprint".toList ∨ property = "sshKey.keyFingerprint".toList then
    some (c.sshKey.bind DecryptedSshKey.keyFingerprint)
  else none

/-- The custom field name a property asks for. -/
def customName (property : Str) : Str :=
  ((stripPrefix property "field.".toList).or (stripPrefix property "custom.".toList)).getD property

def DecryptedCipher.extractProperty (c : DecryptedCipher) (rawProperty : Str) :
    Except CipherError Str :=
  let property := trim rawProperty
  if property.isEmpty then .error .blankProperty
  else if startsWith property "attachment.".toList || startsWith property "attachments.".toList then
    .error .unsupportedAttachment
  else match c.conventional property with
    | some value => existing property value
    | none =>
      let name := customName property
      match c.fields.filter fun f => f.name == some name with
      | _ :: _ :: _ => .error (.duplicateDocumentField name)
      | [f] => existing property f.value
      | [] => .error (.missingProperty property)

def insertOptional (document : SecretDocument) (key : Str) (value : Option Str) : SecretDocument :=
  match value with
  | some v => { document with data := document.data.insert key v }
  | none => document

/-- The loop over the custom fields. A field counts when both its members are
present and its name is not blank; a name already in the document is an error. -/
def insertFields : List DecryptedField → SecretDocument → Except CipherError SecretDocument
  | [], document => .ok document
  | f :: fs, document =>
    match f.name, f.value with
    | some name, some value =>
      if blank name then insertFields fs document
      else if name ∈ document.data then .error (.duplicateDocumentField name)
      else insertFields fs { document with data := document.data.insert name value }
    | _, _ => insertFields fs document

/-- The document of the members every item of a kind has. -/
def DecryptedCipher.conventionalDocument (c : DecryptedCipher) : SecretDocument :=
  let document := insertOptional .default "notes".toList c.notes
  let document := match c.login with
    | none => document
    | some login =>
      let document := insertOptional document "username".toList login.username
      let document := insertOptional document "password".toList login.password
      insertOptional document "totp".toList login.totp
  match c.sshKey with
  | none => document
  | some sshKey =>
    let document := insertOptional document "privateKey".toList sshKey.privateKey
    let document := insertOptional document "publicKey".toList sshKey.publicKey
    insertOptional document "keyFingerprint".toList sshKey.keyFingerprint

def DecryptedCipher.toSecretDocument (c : DecryptedCipher) : Except CipherError SecretDocument := do
  let document ← insertFields c.fields c.conventionalDocument
  if document.data = ∅ then throw (.noExtractableFields c.id)
  return document

end Bweso
