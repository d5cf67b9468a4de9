import Bweso.Spec.Api
import Bweso.Spec.Auth

/-! The `resolve` handler of `main.rs`. Each `?`-like early return is an
`Exit`: what the handler records in its metrics and what it answers. -/

namespace Bweso

/-- The `error_kind` labels. -/
inductive ErrorKind
  | none
  | auth
  | validation
  | unsupportedVersion
  | policyDenied
  | itemNotFound
  | propertyNotFound
  | ambiguousDocument
  | ambiguousSelector
  | unsupportedAttachment
  | unsupportedSharedItem
  | upstreamHttp
  | upstreamStatus
  | upstreamBackoff
  | upstreamPayload
  | crypto
  | keyDerivation
  | kdfParameters
  | syncPayload
  | endpoint
  | overloaded
  | requestTimeout
  deriving DecidableEq

def publicErrorMessage : ErrorKind → Str
  | .auth => "provider authentication failed".toList
  | .validation => "invalid resolve request".toList
  | .unsupportedVersion => "remoteRef.version is not supported".toList
  | .policyDenied => "requested Bitwarden item is not allowed by provider policy".toList
  | .itemNotFound | .propertyNotFound => "requested Bitwarden item or property was not found".toList
  | .ambiguousDocument => "selected Bitwarden item contains conflicting whole-item fields".toList
  | .ambiguousSelector => "requested Bitwarden item name is ambiguous; use the item ID".toList
  | .unsupportedAttachment => "Bitwarden attachment extraction is not supported".toList
  | .unsupportedSharedItem => "shared organization Bitwarden items are not supported".toList
  | .upstreamHttp => "Bitwarden-compatible upstream request failed".toList
  | .upstreamStatus => "Bitwarden-compatible upstream returned an error status".toList
  | .upstreamBackoff => "upstream refresh recently failed; retry after the configured cooldown".toList
  | .upstreamPayload => "Bitwarden-compatible upstream returned an invalid payload".toList
  | .crypto => "failed to decrypt selected Bitwarden item".toList
  | .keyDerivation => "failed to unlock Bitwarden vault key".toList
  | .kdfParameters => "Bitwarden-compatible KDF parameters are unsupported".toList
  | .syncPayload => "Bitwarden-compatible sync payload is missing required unlock data".toList
  | .endpoint => "provider endpoint configuration is invalid".toList
  | .overloaded => "provider is at concurrency limit; retry shortly".toList
  | .requestTimeout => "provider request body timed out".toList
  | .none => "provider request failed".toList

def providerStatusAndKind : BitwardenClientError → ℕ × ErrorKind
  | .validation _ | .cipher .blankProperty => (400, .validation)
  | .cipher (.missingProperty _) => (422, .propertyNotFound)
  | .api .cipherNotFound => (404, .itemNotFound)
  | .cipher (.duplicateDocumentField _) => (409, .ambiguousDocument)
  | .cipher .unsupportedAttachment => (422, .unsupportedAttachment)
  | .api .ambiguousCipherName => (409, .ambiguousSelector)
  | .api .unsupportedSharedItem => (422, .unsupportedSharedItem)
  | .api .refreshThrottled => (503, .upstreamBackoff)
  | .api .http => (502, .upstreamHttp)
  | .api (.httpStatus ..) => (502, .upstreamStatus)
  | .api (.responseTooLarge ..) | .api (.invalidJson _) => (502, .upstreamPayload)
  | .crypto _ | .cipher (.crypto _) | .cipher (.noExtractableFields _) => (500, .crypto)
  | .api .unlockTaskFailed | .keyDerivation _ => (500, .keyDerivation)
  | .api (.unsupportedKdfType _) | .api .invalidKdfMemoryLimit | .api (.missingKdfParameter _) =>
    (500, .kdfParameters)
  | .api .missingMasterPasswordUnlock | .api .missingMasterKeyWrappedUserKey
  | .api .missingCachedSync => (500, .syncPayload)
  | .api .invalidBaseUrl | .invalidEndpoint | .insecureEndpoint => (500, .endpoint)
  | .unsupportedVersionSelector => (400, .unsupportedVersion)
  | .unprefixedSelectorKey => (400, .validation)

/-! ### Answers -/

inductive Outcome
  | success
  | error
  deriving DecidableEq

structure ResolveMetricKey where
  outcome : Outcome
  errorKind : ErrorKind
  status : ℕ
  deriving DecidableEq

/-- A JSON document with status 200, or an `ErrorResponse` with its status. -/
inductive Response
  | document (d : SecretDocument)
  | error (status : ℕ) (message : Str)
  deriving DecidableEq

def Response.status : Response → ℕ
  | .document _ => 200
  | .error status _ => status

/-- One way out of the handler: the series it records and its answer. -/
structure Exit where
  recorded : ResolveMetricKey
  response : Response
  deriving DecidableEq

/-- `record_resolve_request(status, "error", kind, ..)`, then `public_error(status, kind)`. -/
def reject (status : ℕ) (kind : ErrorKind) : Exit :=
  { recorded := ⟨.error, kind, status⟩, response := .error status (publicErrorMessage kind) }

/-- The same through `provider_status_and_kind` and `provider_error`. -/
def rejectProvider (e : BitwardenClientError) : Exit :=
  reject (providerStatusAndKind e).1 (providerStatusAndKind e).2

def finish : Except BitwardenClientError SecretDocument → Exit
  | .ok d => { recorded := ⟨.success, .none, 200⟩, response := .document d }
  | .error e => rejectProvider e

/-! ### The request body -/

structure HttpRequest where
  headers : HeaderMap
  body : Bytes
  deriving DecidableEq

/-- How reading the body under the timeout ends: the client sent it all, the
stream broke, or ten seconds passed. -/
inductive BodyRead
  | completed
  | broken
  | timedOut
  deriving DecidableEq

structure ResolveRequest where
  remoteRef : RemoteRef
  deriving DecidableEq

def resolveBodyLimitBytes : ℕ := 16 * 1024

/-- `str::rsplit_once(char)`: around the last occurrence. -/
def rsplitOnce (c : Char) (s : Str) : Option (Str × Str) :=
  (splitOnce c s.reverse).map fun (a, b) => (b.reverse, a.reverse)

def isJsonContentType (headers : HeaderMap) : Bool :=
  match (headers.getAll "content-type".toList).head? with
  | none => false
  | some value =>
    match headerToStr value with
    | none => false
    | some contentType =>
      let mediaType := trim ((contentType.splitOn ';').headD [])
      match rsplitOnce '/' mediaType with
      | none => false
      | some (_, subtype) =>
        eqIgnoreAsciiCase subtype "json".toList ||
          "+json".toList.isSuffixOf (subtype.map toAsciiLowercase)

/-- `decode_resolve_request` under the read timeout: `none` is the elapsed
timeout, an error is its status. `fromSlice` is `serde_json::from_slice`. -/
def decodeResolveRequest (fromSlice : Bytes → Option ResolveRequest) (request : HttpRequest)
    (read : BodyRead) : Option (Except ℕ ResolveRequest) :=
  if !isJsonContentType request.headers then some (.error 415)
  else match read with
    | .timedOut => none
    | .broken => some (.error 413)
    | .completed =>
      if resolveBodyLimitBytes < request.body.length then some (.error 413)
      else match fromSlice request.body with
        | some r => some (.ok r)
        | none => some (.error 400)

/-! ### The handler, exit by exit -/

def authorizeRequest (prim : Primitives) (auth : WebhookAuth) (headers : HeaderMap) :
    Except Exit AuthorizedScope :=
  match auth.authorize prim headers with
  | some scope => .ok scope
  | none => .error (reject 401 .auth)

def readRequest (fromSlice : Bytes → Option ResolveRequest) (request : HttpRequest) (read : BodyRead) :
    Except Exit ResolveRequest :=
  match decodeResolveRequest fromSlice request read with
  | some (.ok r) => .ok r
  | some (.error status) => .error (reject status .validation)
  | none => .error (reject 408 .requestTimeout)

/-- `try_acquire_owned` on the available permits; `none` is no semaphore. -/
def acquirePermit : Option ℕ → Except Exit (Option ℕ)
  | none => .ok none
  | some 0 => .error (reject 503 .overloaded)
  | some (n + 1) => .ok (some n)

def selectRequest (r : ResolveRequest) : Except Exit BitwardenSelector :=
  match BitwardenSelector.tryFrom r.remoteRef with
  | .ok selector => .ok selector
  | .error e => .error (rejectProvider e)

def checkPolicies (rules : PolicyRules) (scope : AuthorizedScope) (selector : BitwardenSelector) :
    Except Exit Unit :=
  if !rules.allows selector.key || !scope.allows selector.key then .error (reject 403 .policyDenied)
  else .ok ()

/-- What the handler meets on its way to the provider: the request, the auth
state when it authenticates, the body read, the permits left, and the selector
policy when it checks it. -/
structure Encounter where
  request : HttpRequest
  auth : WebhookAuth
  read : BodyRead
  permits : Option ℕ
  rules : PolicyRules

/-- The libraries the handler calls. -/
structure HandlerDeps where
  prim : Primitives
  fromSlice : Bytes → Option ResolveRequest

/-- The handler up to the provider call. -/
def resolveAdmission (deps : HandlerDeps) (m : Encounter) : Except Exit BitwardenSelector := do
  let scope ← authorizeRequest deps.prim m.auth m.request.headers
  let request ← readRequest deps.fromSlice m.request m.read
  let _ ← acquirePermit m.permits
  let selector ← selectRequest request
  checkPolicies m.rules scope selector
  return selector

/-- The handler on a provider with state `σ`, its `resolve` given as a state
transformer. -/
def resolve {σ : Type} (deps : HandlerDeps) (m : Encounter)
    (provider : σ → BitwardenSelector → Except BitwardenClientError SecretDocument × σ) (state : σ) :
    Exit × σ :=
  match resolveAdmission deps m with
  | .error exit => (exit, state)
  | .ok selector =>
    let (result, state) := provider state selector
    (finish result, state)

end Bweso
