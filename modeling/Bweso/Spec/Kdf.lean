import Bweso.Lib.Recording
import Bweso.Spec.Api

/-! The key-derivation work of `unlock_session` with every call of a derivation
function recorded in order, and `prelogin`, the other way by which the upstream's
KDF parameters come in. -/

namespace Bweso

/-- A call of `pbkdf2_hmac` or of `hash_password_into`. -/
inductive KdfCall
  | pbkdf2 (password salt : Bytes) (iterations : ℕ)
  | argon2id (params : Argon2Params) (password salt : Bytes)
  deriving DecidableEq

/-- A computation that derives keys. -/
abbrev Deriving (ε α : Type) := Recording KdfCall ε α

section
variable (prim : Primitives) (new : ℕ → ℕ → ℕ → Option Argon2Params)

def pbkdf2Recorded {ε : Type} (password salt : Bytes) (iterations : ℕ) : Deriving ε (ByteArr 32) :=
  .record (.pbkdf2 password salt iterations) (prim.pbkdf2HmacSha256 password salt iterations)

def argon2Recorded {ε : Type} (params : Argon2Params) (password salt : Bytes) :
    Deriving ε (Option (ByteArr 32)) :=
  .record (.argon2id params password salt) (prim.argon2id params password salt)

/-- `derive_master_key`, with `Params::new` a parameter. -/
def deriveMasterKeyRecorded (password salt : Str) (kdf : KdfConfig) : Deriving KeyDerivationError MasterKey := do
  if password.isEmpty then throw .emptyPassword
  Recording.silent kdf.validateForPrelogin
  match kdf with
  | .pbkdf2Sha256 iterations =>
    let normalizedSalt := normalizeMasterPasswordSalt prim salt
    let derived ← pbkdf2Recorded prim (asBytes password) (asBytes normalizedSalt) iterations
    return ⟨derived⟩
  | .argon2id iterations memoryMib parallelism =>
    let some memoryKib := checkedMulU32 memoryMib 1024
      | throw .invalidArgon2Parameters
    let some params := new memoryKib iterations parallelism
      | throw .invalidArgon2Parameters
    let normalizedSalt := normalizeMasterPasswordSalt prim salt
    let saltDigest := prim.sha256 (asBytes normalizedSalt)
    match ← argon2Recorded prim params (asBytes password) saltDigest.toList with
    | some derived => return ⟨derived⟩
    | none => throw .argon2Failed

def unlockUserKeyRecorded (data : MasterPasswordUnlockData) (password : Str) :
    Deriving KeyDerivationError AuthenticatedSymmetricKey := do
  let masterKey ← deriveMasterKeyRecorded prim new password data.salt data.kdf
  -- unwrapping stretches the master key with HKDF, which calls neither function
  Recording.silent (unwrapUserKeyWithMasterKey prim masterKey data.masterKeyWrappedUserKey)

def unlockSessionRecorded (response : TokenResponse) (masterPassword : Str) (argon2MemoryLimitMib : ℕ) :
    Deriving BitwardenClientError BitwardenSession := do
  let some unlock := response.userDecryptionOptions.bind (·.masterPasswordUnlock)
    | throw (.api .missingMasterPasswordUnlock)
  let unlockData ← Recording.silent ((MasterPasswordUnlockData.tryFrom unlock).mapError .api)
  Recording.silent ((checkArgon2Budget unlockData.kdf argon2MemoryLimitMib).mapError .keyDerivation)
  let userKey ← (unlockUserKeyRecorded prim new unlockData masterPassword).mapError .keyDerivation
  return { accessToken := response.accessToken, expiresIn := response.expiresIn,
           tokenType := response.tokenType.getD "Bearer".toList, userKey }

end

/-- The documented domain of `Params::new` at a 32-byte output: memory for eight
blocks a lane, at least one pass and between one and `2 ^ 24 - 1` lanes. -/
def AcceptsDocumentedParams (new : ℕ → ℕ → ℕ → Option Argon2Params) : Prop :=
  ∀ m t p, 8 * p ≤ m → 1 ≤ t → 1 ≤ p → p < 2 ^ 24 → new m t p = some ⟨m, t, p⟩

/-! ### Prelogin -/

structure PreloginResponse where
  kdf : ℕ
  kdfIterations : ℕ
  kdfMemory : Option ℕ
  kdfParallelism : Option ℕ
  deriving DecidableEq

def KdfConfig.tryFrom (r : PreloginResponse) : Except BitwardenApiError KdfConfig :=
  kdfFromParts r.kdf r.kdfIterations r.kdfMemory r.kdfParallelism

/-- `prelogin`, where `post` is the network and `fromSlice` is `serde_json` at
the response type. -/
def prelogin (endpoints : BitwardenEndpoints) (fromSlice : Bytes → Option PreloginResponse)
    (post : Url → Str → HttpReply) (email : Str) : Except BitwardenClientError KdfConfig := do
  let url ← (endpointUrl endpoints.identityUrl
    ["accounts".toList, "prelogin".toList, "password".toList]).mapError .api
  let response ← (decodeJson fromSlice "prelogin".toList (post url email)).mapError .api
  (KdfConfig.tryFrom response).mapError .api

end Bweso
