import Bweso.Lib.Serde
import Bweso.Spec.Api

/-! The derived decoders of a sync response: `SyncResponse` of `api.rs` and the
encrypted structs of `cipher.rs`, each with its members in declaration order
under their JSON names. -/

namespace Bweso

open Serde

/-- A member under its `camelCase` name or its `rename`, without aliases. -/
def plainMember (name : String) : Member := ⟨name.toList, []⟩

def EncryptedField.jsonMembers : List Member := [plainMember "name", plainMember "value", plainMember "type"]

def EncryptedField.ofMembers : List (Option Json) → Option EncryptedField
  | [name, value, fieldType] => do
    let name ← orDefault (option string) none name
    let value ← orDefault (option string) none value
    let fieldType ← orDefault (option u8) none fieldType
    return { name, value, fieldType }
  | _ => none

def EncryptedField.deserialize (j : Json) : Option EncryptedField := (readStruct jsonMembers j).bind ofMembers

def EncryptedLogin.jsonMembers : List Member := [plainMember "username", plainMember "password", plainMember "totp"]

def EncryptedLogin.ofMembers : List (Option Json) → Option EncryptedLogin
  | [username, password, totp] => do
    let username ← orDefault (option string) none username
    let password ← orDefault (option string) none password
    let totp ← orDefault (option string) none totp
    return { username, password, totp }
  | _ => none

def EncryptedLogin.deserialize (j : Json) : Option EncryptedLogin := (readStruct jsonMembers j).bind ofMembers

def EncryptedSshKey.jsonMembers : List Member :=
  [plainMember "privateKey", plainMember "publicKey", plainMember "keyFingerprint"]

def EncryptedSshKey.ofMembers : List (Option Json) → Option EncryptedSshKey
  | [privateKey, publicKey, keyFingerprint] => do
    let privateKey ← orDefault (option string) none privateKey
    let publicKey ← orDefault (option string) none publicKey
    let keyFingerprint ← orDefault (option string) none keyFingerprint
    return { privateKey, publicKey, keyFingerprint }
  | _ => none

def EncryptedSshKey.deserialize (j : Json) : Option EncryptedSshKey := (readStruct jsonMembers j).bind ofMembers

def EncryptedCipher.jsonMembers : List Member :=
  [plainMember "id", plainMember "type", plainMember "organizationId", plainMember "deletedDate", plainMember "key",
    plainMember "name", plainMember "notes", plainMember "fields", plainMember "login", plainMember "sshKey"]

def EncryptedCipher.ofMembers : List (Option Json) → Option EncryptedCipher
  | [id, cipherType, organizationId, deletedDate, key, name, notes, fields, login, sshKey] => do
    let id ← required string id
    let cipherType ← required u8 cipherType
    let organizationId ← orDefault (option string) none organizationId
    let deletedDate ← orDefault (option string) none deletedDate
    let key ← orDefault (option string) none key
    let name ← orDefault (option string) none name
    let notes ← orDefault (option string) none notes
    -- a `Vec`, not an `Option`: its default is for an absent member only
    let fields ← orDefault (vec EncryptedField.deserialize) [] fields
    let login ← orDefault (option EncryptedLogin.deserialize) none login
    let sshKey ← orDefault (option EncryptedSshKey.deserialize) none sshKey
    return { id, cipherType, organizationId, deletedDate, key, name, notes, fields, login, sshKey }
  | _ => none

def EncryptedCipher.deserialize (j : Json) : Option EncryptedCipher := (readStruct jsonMembers j).bind ofMembers

def SyncResponse.jsonMembers : List Member := [⟨"ciphers".toList, ["Ciphers".toList]⟩]

def SyncResponse.ofMembers : List (Option Json) → Option SyncResponse
  | [ciphers] => do
    let ciphers ← required (vec EncryptedCipher.deserialize) ciphers
    return { ciphers }
  | _ => none

def SyncResponse.deserialize (j : Json) : Option SyncResponse := (readStruct jsonMembers j).bind ofMembers

end Bweso
