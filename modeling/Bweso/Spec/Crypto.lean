import Bweso.Lib.Base64
import Bweso.Lib.Cbc
import Bweso.Spec.Basic

/-! `crypto.rs` and `keys.rs`: the encrypted-string format, authenticated
decryption, and the way from the master password to the user key. The
primitives come from other crates and are parameters; the format, the checks
and the key handling around them are the provider's own. -/

namespace Bweso

/-- A `[u8; n]`. -/
abbrev ByteArr (n : ℕ) := List.Vector UInt8 n

/-- `argon2::Params`: memory in KiB, passes and lanes, for a 32-byte output. -/
structure Argon2Params where
  memoryKib : ℕ
  iterations : ℕ
  parallelism : ℕ
  deriving DecidableEq

/-- `Params::new(m, t, p, Some(32))`, by its documented bounds. -/
def Argon2Params.new (m t p : ℕ) : Option Argon2Params :=
  if 8 * p ≤ m ∧ 1 ≤ t ∧ 1 ≤ p ∧ p < 2 ^ 24 then some ⟨m, t, p⟩ else none

/-- What `sha2`, `hmac`, `aes`, `pbkdf2`, `argon2` and the Unicode tables of
the standard library supply. -/
structure Primitives where
  sha256 : Bytes → ByteArr 32
  hmacSha256 : Bytes → Bytes → ByteArr 32
  aes256 : Cbc.BlockCipher (ByteArr 32) 16
  pbkdf2HmacSha256 : Bytes → Bytes → ℕ → ByteArr 32
  argon2id : Argon2Params → Bytes → Bytes → Option (ByteArr 32)
  toLowercase : Str → Str

inductive EncryptionType
  | aesCbc256HmacSha256B64
  deriving DecidableEq

inductive CryptoError
  | invalidKeyLength (actual : ℕ)
  | invalidEncryptionTypeHeader
  | legacyNoMacDisabled
  | unsupportedEncryptionType (encryptionType : ℕ)
  | invalidPartCount
  | invalidBase64 (part : Str)
  | invalidIvLength (actual : ℕ)
  | invalidMacLength (actual : ℕ)
  | invalidCiphertextLength (actual : ℕ)
  | macVerificationFailed
  | decryptFailed
  | invalidUtf8
  deriving DecidableEq

structure EncryptedString where
  encryptionType : EncryptionType
  iv : ByteArr 16
  data : Bytes
  mac : Bytes
  deriving DecidableEq

/-- A 64-byte Bitwarden symmetric key split into encryption and MAC keys. -/
structure AuthenticatedSymmetricKey where
  encryptionKey : ByteArr 32
  authenticationKey : ByteArr 32
  deriving DecidableEq

/-- `str::parse::<u8>`: an optional plus sign, then digits; overflow is an error. -/
def parseU8 (raw : Str) : Option ℕ :=
  let digits := match raw with
    | '+' :: t => t
    | _ => raw
  if digits.isEmpty || !digits.all Char.isDigit then none
  else
    let v := digits.foldl (fun acc c => acc * 10 + (c.toNat - 48)) 0
    if v ≤ 255 then some v else none

def EncryptionType.parse (raw : Str) : Except CryptoError EncryptionType :=
  match parseU8 raw with
  | none => .error .invalidEncryptionTypeHeader
  | some 0 => .error .legacyNoMacDisabled
  | some 2 => .ok .aesCbc256HmacSha256B64
  | some v => .error (.unsupportedEncryptionType v)

def decodeBase64 (part raw : Str) : Except CryptoError Bytes :=
  match Base64.decode raw with
  | some b => .ok b
  | none => .error (.invalidBase64 part)

/-- The three pieces between the `|` separators, and nothing after them. -/
def splitPieces (payload : Str) : Except CryptoError (Str × Str × Str) :=
  match payload.splitOn '|' with
  | [iv, data, mac] => .ok (iv, data, mac)
  | _ => .error .invalidPartCount

def EncryptedString.fromStr (raw : Str) : Except CryptoError EncryptedString := do
  let some (header, payload) := splitOnce '.' raw
    | throw .legacyNoMacDisabled
  -- the only supported type is the one `parse` returns, so its second check never fires
  let encryptionType ← EncryptionType.parse header
  let (iv, data, mac) ← splitPieces payload
  let iv ← decodeBase64 "iv".toList iv
  let data ← decodeBase64 "data".toList data
  let mac ← decodeBase64 "mac".toList mac
  if hiv : iv.length = 16 then
    if mac.length ≠ 32 then throw (.invalidMacLength mac.length)
    if data.isEmpty || data.length % 16 != 0 then throw (.invalidCiphertextLength data.length)
    return { encryptionType, iv := ⟨iv, hiv⟩, data, mac }
  else throw (.invalidIvLength iv.length)

def EncryptionType.asU8 : EncryptionType → ℕ
  | .aesCbc256HmacSha256B64 => 2

/-- `<[u8; n]>::try_from(Vec<u8>)` -/
def tryIntoArray (n : ℕ) (b : Bytes) : Option (ByteArr n) := if h : b.length = n then some ⟨b, h⟩ else none

/-- `from_str` check by check, with the conversion behind the checks left
fallible: `none` is a panic in its `unreachable!`. -/
def EncryptedString.fromStrOrPanic (raw : Str) : ExceptT CryptoError Option EncryptedString := do
  let some (header, payload) := splitOnce '.' raw
    | throw .legacyNoMacDisabled
  let encryptionType ← MonadExcept.ofExcept (EncryptionType.parse header)
  if encryptionType ≠ .aesCbc256HmacSha256B64 then
    throw (.unsupportedEncryptionType encryptionType.asU8)
  let (iv, data, mac) ← MonadExcept.ofExcept (splitPieces payload)
  let iv ← MonadExcept.ofExcept (decodeBase64 "iv".toList iv)
  let data ← MonadExcept.ofExcept (decodeBase64 "data".toList data)
  let mac ← MonadExcept.ofExcept (decodeBase64 "mac".toList mac)
  if iv.length ≠ 16 then throw (.invalidIvLength iv.length)
  if mac.length ≠ 32 then throw (.invalidMacLength mac.length)
  if data.isEmpty || data.length % 16 != 0 then throw (.invalidCiphertextLength data.length)
  let iv ← ExceptT.lift (tryIntoArray 16 iv)
  return { encryptionType, iv, data, mac }

def AuthenticatedSymmetricKey.tryFrom (raw : Bytes) : Except CryptoError AuthenticatedSymmetricKey :=
  if h : raw.length = 64 then
    .ok ⟨⟨raw.take 32, by simp [h]⟩, ⟨raw.drop 32, by simp [h]⟩⟩
  else .error (.invalidKeyLength raw.length)

section
variable (prim : Primitives)

def verifyMac (authenticationKey iv data mac : Bytes) : Except CryptoError Unit :=
  if (prim.hmacSha256 authenticationKey (iv ++ data)).toList = mac then .ok ()
  else .error .macVerificationFailed

def EncryptedString.decryptBytes (e : EncryptedString) (key : AuthenticatedSymmetricKey) :
    Except CryptoError Bytes := do
  verifyMac prim key.authenticationKey.toList e.iv.toList e.data e.mac
  match Cbc.decryptPadded prim.aes256 key.encryptionKey e.iv e.data with
  | some plain => return plain
  | none => throw .decryptFailed

def EncryptedString.decryptUtf8 (e : EncryptedString) (key : AuthenticatedSymmetricKey) :
    Except CryptoError Str := do
  let plain ← e.decryptBytes prim key
  match fromUtf8 plain with
  | some s => return s
  | none => throw .invalidUtf8

end

/-! ### `keys.rs` -/

inductive KdfConfig
  | pbkdf2Sha256 (iterations : ℕ)
  | argon2id (iterations memoryMib parallelism : ℕ)
  deriving DecidableEq

inductive KeyDerivationError
  | emptyPassword
  | kdfDowngrade (parameter : Str) (actual minimum : ℕ)
  | kdfTooExpensive (parameter : Str) (actual maximum : ℕ)
  | invalidArgon2Parameters
  | argon2Failed
  | invalidMasterKeyLength (actual : ℕ)
  | hkdfExpandFailed
  | crypto (e : CryptoError)
  deriving DecidableEq

def validateKdfBounds (parameter : Str) (actual minimum maximum : ℕ) : Except KeyDerivationError Unit :=
  if actual < minimum then .error (.kdfDowngrade parameter actual minimum)
  else if maximum < actual then .error (.kdfTooExpensive parameter actual maximum)
  else .ok ()

def KdfConfig.validateForPrelogin : KdfConfig → Except KeyDerivationError Unit
  | .pbkdf2Sha256 iterations => validateKdfBounds "pbkdf2_iterations".toList iterations 5000 2000000
  | .argon2id iterations memoryMib parallelism => do
    validateKdfBounds "argon2_iterations".toList iterations 2 10
    validateKdfBounds "argon2_memory_mib".toList memoryMib 16 1024
    validateKdfBounds "argon2_parallelism".toList parallelism 1 16

/-- 32-byte master key material derived from the master password. -/
structure MasterKey where
  bytes : ByteArr 32
  deriving DecidableEq

structure MasterPasswordUnlockData where
  salt : Str
  kdf : KdfConfig
  masterKeyWrappedUserKey : Str
  deriving DecidableEq

/-- `u32::checked_mul` -/
def checkedMulU32 (a b : ℕ) : Option ℕ := if a * b < 2 ^ 32 then some (a * b) else none

section
variable (prim : Primitives)

def normalizeMasterPasswordSalt (salt : Str) : Str := prim.toLowercase (trim salt)

def deriveMasterKey (password salt : Str) (kdf : KdfConfig) : Except KeyDerivationError MasterKey := do
  if password.isEmpty then throw .emptyPassword
  kdf.validateForPrelogin
  match kdf with
  | .pbkdf2Sha256 iterations =>
    let normalizedSalt := normalizeMasterPasswordSalt prim salt
    return ⟨prim.pbkdf2HmacSha256 (asBytes password) (asBytes normalizedSalt) iterations⟩
  | .argon2id iterations memoryMib parallelism =>
    let some memoryKib := checkedMulU32 memoryMib 1024
      | throw .invalidArgon2Parameters
    let some params := Argon2Params.new memoryKib iterations parallelism
      | throw .invalidArgon2Parameters
    let normalizedSalt := normalizeMasterPasswordSalt prim salt
    -- Argon2id hashes the normalized salt first; PBKDF2 above uses it directly.
    let saltDigest := prim.sha256 (asBytes normalizedSalt)
    match prim.argon2id params (asBytes password) saltDigest.toList with
    | some derived => return ⟨derived⟩
    | none => throw .argon2Failed

/-- HKDF-Expand of RFC 5869 with HMAC-SHA256: `count` further blocks, each
keyed hash taking the one before it, the label and a counter. -/
def hkdfBlocks (prk info : Bytes) : ℕ → Bytes → ℕ → Bytes
  | 0, _, _ => []
  | count + 1, previous, i =>
    let t := (prim.hmacSha256 prk (previous ++ info ++ [UInt8.ofNat i])).toList
    t ++ hkdfBlocks prk info count t (i + 1)

/-- `Hkdf::expand` into `len` bytes, `none` beyond 255 blocks. -/
def hkdfExpand (prk info : Bytes) (len : ℕ) : Option Bytes :=
  if 255 * 32 < len then none else some ((hkdfBlocks prim prk info ((len + 31) / 32) [] 1).take len)

def stretchMasterKey (masterKey : MasterKey) : Except KeyDerivationError AuthenticatedSymmetricKey := do
  -- `from_prk` accepts any key of at least the hash length, which 32 bytes are
  let some enc := hkdfExpand prim masterKey.bytes.toList (asBytes "enc".toList) 32
    | throw .hkdfExpandFailed
  let some mac := hkdfExpand prim masterKey.bytes.toList (asBytes "mac".toList) 32
    | throw .hkdfExpandFailed
  (AuthenticatedSymmetricKey.tryFrom (enc ++ mac)).mapError .crypto

def unwrapUserKeyWithMasterKey (masterKey : MasterKey) (encryptedUserKey : Str) :
    Except KeyDerivationError AuthenticatedSymmetricKey := do
  let wrappingKey ← stretchMasterKey prim masterKey
  let encrypted ← (EncryptedString.fromStr encryptedUserKey).mapError .crypto
  let plain ← (encrypted.decryptBytes prim wrappingKey).mapError .crypto
  (AuthenticatedSymmetricKey.tryFrom plain).mapError .crypto

def MasterPasswordUnlockData.unlockUserKey (self : MasterPasswordUnlockData) (password : Str) :
    Except KeyDerivationError AuthenticatedSymmetricKey := do
  let masterKey ← deriveMasterKey prim password self.salt self.kdf
  unwrapUserKeyWithMasterKey prim masterKey self.masterKeyWrappedUserKey

end

end Bweso
