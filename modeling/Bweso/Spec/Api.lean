import Bweso.Spec.Cipher

/-! `lib.rs` and the parts of `api.rs` that hold no shared state: selectors,
errors, login, unlock, sync and the item lookup. What the network does is a
parameter of one fetch; JSON decoding is `serde_json`'s. -/

namespace Bweso

inductive BitwardenApiError
  | invalidKdfMemoryLimit
  | refreshThrottled
  | unlockTaskFailed
  | http
  | invalidBaseUrl
  | httpStatus (endpoint : Str) (status : ℕ)
  | responseTooLarge (endpoint : Str) (limit : ℕ)
  | invalidJson (endpoint : Str)
  | unsupportedKdfType (kdfType : ℕ)
  | missingKdfParameter (parameter : Str)
  | missingMasterPasswordUnlock
  | missingMasterKeyWrappedUserKey
  | missingCachedSync
  | cipherNotFound
  | ambiguousCipherName
  | unsupportedSharedItem
  deriving DecidableEq

inductive BitwardenClientError
  | validation (e : ValidationError)
  | crypto (e : CryptoError)
  | cipher (e : CipherError)
  | keyDerivation (e : KeyDerivationError)
  | api (e : BitwardenApiError)
  | invalidEndpoint
  | insecureEndpoint
  | unsupportedVersionSelector
  | unprefixedSelectorKey
  deriving DecidableEq

def BitwardenApiError.permitsStaleCache : BitwardenApiError → Bool
  | .http => true
  | .httpStatus _ status => status = 408 || status = 429 || (500 ≤ status && status ≤ 599)
  | _ => false

def BitwardenClientError.permitsStaleCache : BitwardenClientError → Bool
  | .api e => e.permitsStaleCache
  | _ => false

/-! ### Selectors -/

structure BitwardenSelector where
  key : Str
  property : Option Str
  deriving DecidableEq

def validateSelectorKey (key : Str) : Except BitwardenClientError Unit :=
  match (stripPrefix key "id:".toList).or (stripPrefix key "name:".toList) with
  | some value => (requireNonEmpty value "remote_ref.key".toList).mapError .validation
  | none => .error .unprefixedSelectorKey

def selectorProperty : Option Str → Except BitwardenClientError (Option Str)
  | none => .ok none
  | some property => do
    (requireNonEmpty property "remote_ref.property".toList).mapError .validation
    return some (trim property)

def BitwardenSelector.tryFrom (r : RemoteRef) : Except BitwardenClientError BitwardenSelector := do
  (requireNonEmpty r.key "remote_ref.key".toList).mapError .validation
  if r.version.any fun v => !blank v then throw .unsupportedVersionSelector
  let property ← selectorProperty r.property
  let key := trim r.key
  validateSelectorKey key
  return { key, property }

/-! ### Endpoints -/

/-- A parsed URL. `path` is its serialised path, empty only when the URL
cannot be a base. -/
structure Url where
  scheme : Str
  authority : Str
  host : Option Str
  path : Str
  query : Option Str
  fragment : Option Str
  cannotBeABase : Bool
  deriving DecidableEq

/-- `PathSegmentsMut::pop_if_empty` -/
def popIfEmpty (path : Str) : Str :=
  if 1 < path.length ∧ path.getLast? = some '/' then path.dropLast else path

/-- `PathSegmentsMut::push`, for a segment with nothing to percent-encode. -/
def pushSegment (path segment : Str) : Str :=
  if path = "/".toList then path ++ segment else path ++ '/' :: segment

def endpointUrl (base : Url) (segments : List Str) : Except BitwardenApiError Url :=
  if base.cannotBeABase then .error .invalidBaseUrl
  else .ok { base with query := none, fragment := none,
                       path := segments.foldl pushSegment (popIfEmpty base.path) }

structure BitwardenEndpoints where
  identityUrl : Url
  apiUrl : Url
  deriving DecidableEq

/-! ### Upstream messages -/

structure TokenKdfResponse where
  kdfType : ℕ
  iterations : ℕ
  memory : Option ℕ
  parallelism : Option ℕ
  deriving DecidableEq

structure MasterPasswordUnlockResponse where
  kdf : TokenKdfResponse
  masterKeyWrappedUserKey : Option Str
  masterKeyEncryptedUserKey : Option Str
  salt : Str
  deriving DecidableEq

structure UserDecryptionOptionsResponse where
  masterPasswordUnlock : Option MasterPasswordUnlockResponse
  deriving DecidableEq

structure TokenResponse where
  accessToken : Str
  expiresIn : Option ℕ
  tokenType : Option Str
  userDecryptionOptions : Option UserDecryptionOptionsResponse
  deriving DecidableEq

structure SyncResponse where
  ciphers : List EncryptedCipher
  deriving DecidableEq

structure ApiKeyTokenRequest where
  grantType : Str
  scope : Str
  clientId : Str
  clientSecret : Str
  deviceIdentifier : Str
  deviceName : Str
  deviceType : ℕ
  deriving DecidableEq

/-- What a request yields: a transport error, or a status with a body that
arrives in chunks and may break off after them. -/
inductive HttpReply
  | transportError
  | response (status : ℕ) (chunks : List Bytes) (complete : Bool)
  deriving DecidableEq

/-- `serde_json::from_slice` at the two upstream message types. -/
structure ApiSerde where
  tokenResponse : Bytes → Option TokenResponse
  syncResponse : Bytes → Option SyncResponse

/-- The network during one fetch, and whether the blocking unlock task runs to
its end. -/
structure Upstream where
  token : Url → ApiKeyTokenRequest → HttpReply
  unlockTask : Bool
  sync : Url → Str → HttpReply

def maxUpstreamResponseBytes : ℕ := 32 * 1024 * 1024

/-- The loop of `decode_json_body` over the delivered chunks. -/
def collectBody (endpoint : Str) (limit : ℕ) : List Bytes → Bytes → Except BitwardenApiError Bytes
  | [], body => .ok body
  | chunk :: rest, body =>
    let nextLen := body.length + chunk.length
    if 2 ^ 64 ≤ nextLen ∨ limit < nextLen then .error (.responseTooLarge endpoint limit)
    else collectBody endpoint limit rest (body ++ chunk)

/-- The values `body` takes in that loop, from the buffer at its start on. -/
def collectBuffers (limit : ℕ) : List Bytes → Bytes → List Bytes
  | [], body => [body]
  | chunk :: rest, body =>
    let nextLen := body.length + chunk.length
    if 2 ^ 64 ≤ nextLen ∨ limit < nextLen then [body]
    else body :: collectBuffers limit rest (body ++ chunk)

def decodeJsonBody {α : Type} (fromSlice : Bytes → Option α) (endpoint : Str) (limit : ℕ)
    (chunks : List Bytes) (complete : Bool) : Except BitwardenApiError α := do
  let body ← collectBody endpoint limit chunks []
  if !complete then throw .http
  match fromSlice body with
  | some a => return a
  | none => throw (.invalidJson endpoint)

def decodeJson {α : Type} (fromSlice : Bytes → Option α) (endpoint : Str) :
    HttpReply → Except BitwardenApiError α
  | .transportError => .error .http
  | .response status chunks complete =>
    if 200 ≤ status ∧ status ≤ 299 then
      decodeJsonBody fromSlice endpoint maxUpstreamResponseBytes chunks complete
    else .error (.httpStatus endpoint status)

/-! ### Login, unlock and sync -/

structure BitwardenSession where
  accessToken : Str
  expiresIn : Option ℕ
  tokenType : Str
  userKey : AuthenticatedSymmetricKey
  deriving DecidableEq

structure BitwardenDevice where
  deviceType : ℕ
  identifier : Str
  name : Str
  deriving DecidableEq

structure BitwardenAuth where
  clientId : Str
  clientSecret : Str
  masterPassword : Str
  deriving DecidableEq

/-- What a client keeps fixed: where it connects, as whom, and the two
libraries it calls. -/
structure ClientConfig where
  endpoints : BitwardenEndpoints
  auth : BitwardenAuth
  device : BitwardenDevice
  argon2MemoryLimitMib : ℕ
  prim : Primitives
  serde : ApiSerde

def kdfFromParts (kdfType iterations : ℕ) (memory parallelism : Option ℕ) :
    Except BitwardenApiError KdfConfig :=
  match kdfType with
  | 0 => .ok (.pbkdf2Sha256 iterations)
  | 1 => do
    let some memoryMib := memory | throw (.missingKdfParameter "memory".toList)
    let some parallelism := parallelism | throw (.missingKdfParameter "parallelism".toList)
    return .argon2id iterations memoryMib parallelism
  | value => .error (.unsupportedKdfType value)

def MasterPasswordUnlockData.tryFrom (r : MasterPasswordUnlockResponse) :
    Except BitwardenApiError MasterPasswordUnlockData := do
  let some masterKeyWrappedUserKey := r.masterKeyWrappedUserKey.or r.masterKeyEncryptedUserKey
    | throw .missingMasterKeyWrappedUserKey
  let kdf ← kdfFromParts r.kdf.kdfType r.kdf.iterations r.kdf.memory r.kdf.parallelism
  return { salt := r.salt, kdf, masterKeyWrappedUserKey }

/-- The operator's Argon2 budget, checked before any derivation. -/
def checkArgon2Budget (kdf : KdfConfig) (limitMib : ℕ) : Except KeyDerivationError Unit :=
  match kdf with
  | .argon2id _ memoryMib _ =>
    if limitMib < memoryMib then .error (.kdfTooExpensive "argon2_memory_mib".toList memoryMib limitMib)
    else .ok ()
  | .pbkdf2Sha256 _ => .ok ()

def unlockSession (prim : Primitives) (response : TokenResponse) (masterPassword : Str)
    (argon2MemoryLimitMib : ℕ) : Except BitwardenClientError BitwardenSession := do
  let some unlock := response.userDecryptionOptions.bind (·.masterPasswordUnlock)
    | throw (.api .missingMasterPasswordUnlock)
  let unlockData ← (MasterPasswordUnlockData.tryFrom unlock).mapError .api
  (checkArgon2Budget unlockData.kdf argon2MemoryLimitMib).mapError .keyDerivation
  let userKey ← (unlockData.unlockUserKey prim masterPassword).mapError .keyDerivation
  return { accessToken := response.accessToken, expiresIn := response.expiresIn,
           tokenType := response.tokenType.getD "Bearer".toList, userKey }

def tokenRequest (cfg : ClientConfig) : ApiKeyTokenRequest :=
  { grantType := "client_credentials".toList
    scope := if startsWith cfg.auth.clientId "organization.".toList then "api.organization".toList
      else "api".toList
    clientId := cfg.auth.clientId
    clientSecret := cfg.auth.clientSecret
    deviceIdentifier := cfg.device.identifier
    deviceName := cfg.device.name
    deviceType := cfg.device.deviceType }

def loginWithApiKey (cfg : ClientConfig) (up : Upstream) :
    Except BitwardenClientError BitwardenSession := do
  let url ← (endpointUrl cfg.endpoints.identityUrl ["connect".toList, "token".toList]).mapError .api
  let response ← (decodeJson cfg.serde.tokenResponse "token".toList
    (up.token url (tokenRequest cfg))).mapError .api
  if !up.unlockTask then throw (.api .unlockTaskFailed)
  unlockSession cfg.prim response cfg.auth.masterPassword cfg.argon2MemoryLimitMib

def sync (cfg : ClientConfig) (up : Upstream) (session : BitwardenSession) :
    Except BitwardenClientError SyncResponse := do
  let url ← (endpointUrl cfg.endpoints.apiUrl ["sync".toList]).mapError .api
  let url := { url with query := some "excludeDomains=true".toList }
  (decodeJson cfg.serde.syncResponse "sync".toList (up.sync url session.accessToken)).mapError .api

/-- `fetch_vault` up to the clock sample it stamps the vault with. -/
def fetchVault (cfg : ClientConfig) (up : Upstream) :
    Except BitwardenClientError (BitwardenSession × SyncResponse) := do
  let session ← loginWithApiKey cfg up
  let response ← sync cfg up session
  return (session, response)

/-! ### Item lookup -/

inductive CipherLookup
  | id (id : Str)
  | name (name : Str)
  deriving DecidableEq

def CipherLookup.fromKey (key : Str) : Except BitwardenClientError CipherLookup :=
  match stripPrefix key "id:".toList with
  | some itemId => .ok (.id itemId)
  | none =>
    match stripPrefix key "name:".toList with
    | some itemName => .ok (.name itemName)
    | none => .error .unprefixedSelectorKey

def findCipherById (s : SyncResponse) (id : Str) : Except BitwardenApiError EncryptedCipher :=
  match s.ciphers.find? fun c => c.id == id && c.deletedDate.isNone with
  | some c => .ok c
  | none => .error .cipherNotFound

section
variable (prim : Primitives)

def resolveSyncedCipherById (s : SyncResponse) (userKey : AuthenticatedSymmetricKey) (id : Str) :
    Except BitwardenClientError DecryptedCipher := do
  let cipher ← (findCipherById s id).mapError .api
  if cipher.organizationId.isSome then throw (.api .unsupportedSharedItem)
  (cipher.decrypt prim userKey).mapError .cipher

/-- The scan of `resolve_synced_cipher_by_name`: the pending match and whether
a shared item was skipped. -/
def scanByName (userKey : AuthenticatedSymmetricKey) (name : Str) :
    List EncryptedCipher → Option DecryptedCipher → Bool →
      Except BitwardenClientError (Option DecryptedCipher × Bool)
  | [], nameMatch, hasSharedItems => .ok (nameMatch, hasSharedItems)
  | c :: cs, nameMatch, hasSharedItems =>
    if c.deletedDate.isSome then scanByName userKey name cs nameMatch hasSharedItems
    else if c.organizationId.isSome then scanByName userKey name cs nameMatch true
    else do
      -- a decryption failure is never turned into absence
      let decrypted ← (c.decrypt prim userKey).mapError .cipher
      if decrypted.name = some name then
        if nameMatch.isSome then throw (.api .ambiguousCipherName)
        scanByName userKey name cs (some decrypted) hasSharedItems
      else scanByName userKey name cs nameMatch hasSharedItems

def resolveSyncedCipherByName (s : SyncResponse) (userKey : AuthenticatedSymmetricKey) (name : Str) :
    Except BitwardenClientError DecryptedCipher := do
  let (nameMatch, hasSharedItems) ← scanByName prim userKey name s.ciphers none false
  match nameMatch with
  | some d => return d
  | none => throw (.api (if hasSharedItems then .unsupportedSharedItem else .cipherNotFound))

def resolveSyncedCipher (s : SyncResponse) (userKey : AuthenticatedSymmetricKey) (key : Str) :
    Except BitwardenClientError DecryptedCipher := do
  match ← CipherLookup.fromKey key with
  | .id id => resolveSyncedCipherById prim s userKey id
  | .name name => resolveSyncedCipherByName prim s userKey name

/-- The document of one property: its value under `value` and under its name. -/
def propertyDocument (property value : Str) : SecretDocument :=
  let document := SecretDocument.single "value".toList value
  if property = "value".toList then document
  else { document with data := document.data.insert property value }

/-- `resolve_with_cached_sync` after the cache step, on the vault it then reads. -/
def resolveFromSync (s : SyncResponse) (userKey : AuthenticatedSymmetricKey)
    (selector : BitwardenSelector) : Except BitwardenClientError SecretDocument := do
  let cipher ← resolveSyncedCipher prim s userKey selector.key
  if cipher.organizationId.isSome then throw (.api .unsupportedSharedItem)
  match selector.property with
  | some property =>
    let value ← (cipher.extractProperty property).mapError .cipher
    return propertyDocument property value
  | none => (cipher.toSecretDocument).mapError .cipher

end

end Bweso
