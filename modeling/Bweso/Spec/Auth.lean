import Bweso.Spec.Crypto
import Bweso.Spec.Policy

/-! `auth.rs`: the three webhook authentication modes, the scoped policy file
with its checks, and the bearer header. -/

namespace Bweso

/-! ### Headers -/

/-- An `http::HeaderMap`: names in their canonical lower case, values as bytes,
in order. -/
abbrev HeaderMap := List (Str × Bytes)

def HeaderMap.getAll (h : HeaderMap) (name : Str) : List Bytes :=
  (h.filter fun entry => entry.1 == name).map Prod.snd

/-- `HeaderValue::to_str`: visible ASCII, space and tab. -/
def headerToStr (value : Bytes) : Option Str :=
  if value.all fun b => (32 ≤ b && b < 127) || b == 9 then some (value.map fun b => Char.ofNat b.toNat)
  else none

/-- What `HeaderValue::from_bytes` accepts: no control characters but tab. -/
def headerValueValid (value : Bytes) : Bool := value.all fun b => (32 ≤ b && b != 127) || b == 9

/-- `u8::is_ascii_whitespace` -/
def isAsciiWhitespace (b : UInt8) : Bool := b == 9 || b == 10 || b == 12 || b == 13 || b == 32

/-- `u8::is_ascii_graphic` -/
def isAsciiGraphic (b : UInt8) : Bool := 33 ≤ b && b ≤ 126

def bearerToken (headers : HeaderMap) : Option Str :=
  match headers.getAll "authorization".toList with
  | [value] => do
    let raw ← headerToStr value
    let (scheme, token) ← splitOnce ' ' raw
    if !eqIgnoreAsciiCase scheme "Bearer".toList || token.isEmpty ||
        (asBytes token).any isAsciiWhitespace then none
    else some token
  | _ => none

/-! ### Scoped policies -/

abbrev TokenDigest := ByteArr 32

def TokenDigest.new (prim : Primitives) (token : Str) : TokenDigest := prim.sha256 (asBytes token)

structure RawCapability where
  name : Str
  tokens : List Str
  allowedKeys : List Str
  allowedKeyPrefixes : List Str
  deriving DecidableEq

structure RawAuthPolicy where
  version : ℕ
  capabilities : List RawCapability
  deriving DecidableEq

/-- Every token of the policy, capability by capability. -/
def RawAuthPolicy.tokens (p : RawAuthPolicy) : List Str := p.capabilities.flatMap RawCapability.tokens

structure ScopedCapability where
  tokens : List TokenDigest
  selectorRules : PolicyRules
  deriving DecidableEq

structure ScopedAuthRules where
  capabilities : List ScopedCapability
  deriving DecidableEq

def maxAuthPolicyFileBytes : ℕ := 1024 * 1024
def maxAuthCapabilities : ℕ := 1024
def maxAuthTokens : ℕ := 4096
def minScopedTokenBytes : ℕ := 32
def maxScopedTokenBytes : ℕ := 4096
def authPolicyVersion : ℕ := 1

inductive AuthPolicyError
  | openFile
  | readFile
  | fileTooLarge
  | parse
  | unsupportedVersion (version : ℕ)
  | noCapabilities
  | tooManyCapabilities
  | emptyName (index : ℕ)
  | untrimmedName (index : ℕ)
  | duplicateName
  | noTokens (index : ℕ)
  | tooManyTokens
  | tokenLength (index : ℕ)
  | tokenAlphabet (index : ℕ)
  | duplicateToken
  | emptyEntry (index : ℕ) (field : Str)
  | noEntries (index : ℕ)
  deriving DecidableEq

/-- `capabilities[index]` -/
def capabilityPath (index : ℕ) : Str := "capabilities[".toList ++ (toString index).toList ++ "]".toList

/-- The innermost text of each error; the file errors carry the path besides. -/
def AuthPolicyError.message : AuthPolicyError → Str
  | .openFile => "failed to open auth policy file".toList
  | .readFile => "failed to read auth policy file".toList
  | .fileTooLarge => "auth policy file exceeds the 1048576 byte limit".toList
  | .parse => "failed to parse auth policy file".toList
  | .unsupportedVersion version =>
    "unsupported auth policy version ".toList ++ (toString version).toList ++ "; expected 1".toList
  | .noCapabilities => "auth policy must define at least one capability".toList
  | .tooManyCapabilities => "auth policy defines more than the 1024 capability limit".toList
  | .emptyName index => capabilityPath index ++ ".name must not be empty".toList
  | .untrimmedName index => capabilityPath index ++ ".name must not have surrounding whitespace".toList
  | .duplicateName => "auth policy capability names must be unique".toList
  | .noTokens index => capabilityPath index ++ ".tokens must not be empty".toList
  | .tooManyTokens => "auth policy defines more than the 4096 token limit".toList
  | .tokenLength index =>
    capabilityPath index ++ ".tokens entries must be between 32 and 4096 bytes".toList
  | .tokenAlphabet index => capabilityPath index ++
    ".tokens entries must contain only printable, non-whitespace ASCII bytes".toList
  | .duplicateToken => "auth policy tokens must be unique across capabilities".toList
  | .emptyEntry index field =>
    capabilityPath index ++ ".".toList ++ field ++ " entries must not be empty".toList
  | .noEntries index => capabilityPath index ++ " must define allowedKeys or allowedKeyPrefixes".toList

def normalizeEntries (index : ℕ) (field : Str) : List Str → Except AuthPolicyError (List Str)
  | [] => .ok []
  | entry :: entries => do
    let trimmed := trim entry
    if trimmed.isEmpty then throw (.emptyEntry index field)
    let normalized ← normalizeEntries index field entries
    return trimmed :: normalized

def validateScopedToken (token : Str) (index : ℕ) : Except AuthPolicyError Unit :=
  let length := (asBytes token).length
  if length < minScopedTokenBytes ∨ maxScopedTokenBytes < length then .error (.tokenLength index)
  else if !(asBytes token).all isAsciiGraphic then .error (.tokenAlphabet index)
  else .ok ()

section
variable (prim : Primitives)

/-- The inner loop of `try_from`: the digests of one capability's tokens, and
the digests seen so far. -/
def insertTokens (index : ℕ) : List Str → List TokenDigest →
    Except AuthPolicyError (List TokenDigest × List TokenDigest)
  | [], seen => .ok ([], seen)
  | token :: tokens, seen => do
    validateScopedToken token index
    let digest := TokenDigest.new prim token
    if digest ∈ seen then throw .duplicateToken
    let (digests, seen) ← insertTokens index tokens (digest :: seen)
    return (digest :: digests, seen)

/-- The outer loop of `try_from` from `index` on, with the names, digests and
token count of the capabilities before it. -/
def buildCapabilities : List RawCapability → ℕ → List Str → List TokenDigest → ℕ →
    Except AuthPolicyError (List ScopedCapability)
  | [], _, _, _, _ => .ok []
  | capability :: rest, index, names, seen, totalTokens => do
    if blank capability.name then throw (.emptyName index)
    if trim capability.name ≠ capability.name then throw (.untrimmedName index)
    if capability.name ∈ names then throw .duplicateName
    if capability.tokens.isEmpty then throw (.noTokens index)
    let totalTokens := totalTokens + capability.tokens.length
    if maxAuthTokens < totalTokens then throw .tooManyTokens
    let (tokens, seen) ← insertTokens prim index capability.tokens seen
    let allowedKeys ← normalizeEntries index "allowedKeys".toList capability.allowedKeys
    let allowedKeyPrefixes ←
      normalizeEntries index "allowedKeyPrefixes".toList capability.allowedKeyPrefixes
    if allowedKeys.isEmpty && allowedKeyPrefixes.isEmpty then throw (.noEntries index)
    let capabilities ← buildCapabilities rest (index + 1) (capability.name :: names) seen totalTokens
    return { tokens, selectorRules := .allowList allowedKeys allowedKeyPrefixes } :: capabilities

def ScopedAuthRules.tryFrom (raw : RawAuthPolicy) : Except AuthPolicyError ScopedAuthRules := do
  if raw.version ≠ authPolicyVersion then throw (.unsupportedVersion raw.version)
  if raw.capabilities.isEmpty then throw .noCapabilities
  if maxAuthCapabilities < raw.capabilities.length then throw .tooManyCapabilities
  let capabilities ← buildCapabilities prim raw.capabilities 0 [] [] 0
  return { capabilities }

/-- `read_bounded_secret_file`, then `serde_json::from_str`, then `try_from`. -/
def ScopedAuthRules.read (fromStr : Str → Option RawAuthPolicy) :
    FileRead → Except AuthPolicyError ScopedAuthRules
  | .openFailed => .error .openFile
  | .readFailed => .error .readFile
  | .contents bytes =>
    match fromUtf8 (bytes.take (maxAuthPolicyFileBytes + 1)) with
    | none => .error .readFile
    | some contents =>
      if maxAuthPolicyFileBytes < (asBytes contents).length then .error .fileTooLarge
      else match fromStr contents with
        | none => .error .parse
        | some raw => ScopedAuthRules.tryFrom prim raw

end

/-! ### Authorization -/

inductive AuthorizedScope
  | global
  | scoped (rules : PolicyRules)
  deriving DecidableEq

def AuthorizedScope.allows (scope : AuthorizedScope) (key : Str) : Bool :=
  match scope with
  | .global => true
  | .scoped rules => rules.allows key

/-- The double loop of `ScopedAuthRules::authorize`: every token of every
capability is compared, and a later match replaces an earlier one. -/
def matchCapability (supplied : TokenDigest) (capabilities : List ScopedCapability) :
    Option ScopedCapability :=
  capabilities.foldl (fun found capability =>
    capability.tokens.foldl (fun found expected =>
      if expected = supplied then some capability else found) found) none

def ScopedAuthRules.authorize (prim : Primitives) (rules : ScopedAuthRules) (supplied : Str) :
    Option AuthorizedScope :=
  (matchCapability (TokenDigest.new prim supplied) rules.capabilities).map
    fun capability => .scoped capability.selectorRules

def ScopedAuthRules.counts (rules : ScopedAuthRules) : ℕ × ℕ :=
  (rules.capabilities.length, (rules.capabilities.map fun capability => capability.tokens.length).sum)

/-- The hot-swappable holder of a scoped policy. -/
structure ScopedAuthPolicy where
  rules : ScopedAuthRules
  deriving DecidableEq

namespace ScopedAuthPolicy

def fromFile (prim : Primitives) (fromStr : Str → Option RawAuthPolicy) (file : FileRead) :
    Except AuthPolicyError ScopedAuthPolicy :=
  (ScopedAuthRules.read prim fromStr file).map fun rules => { rules }

def authorize (prim : Primitives) (policy : ScopedAuthPolicy) (supplied : Str) : Option AuthorizedScope :=
  let length := (asBytes supplied).length
  if length < minScopedTokenBytes ∨ maxScopedTokenBytes < length then none
  else policy.rules.authorize prim supplied

def reload (prim : Primitives) (fromStr : Str → Option RawAuthPolicy) (policy : ScopedAuthPolicy)
    (file : FileRead) : Except AuthPolicyError Bool × ScopedAuthPolicy :=
  let (changed, rules) := LastGood.refresh policy.rules (ScopedAuthRules.read prim fromStr file)
  (changed, { rules })

end ScopedAuthPolicy

inductive WebhookAuth
  | legacy (expected : TokenDigest)
  | scoped (policy : ScopedAuthPolicy)
  | disabledInsecure
  deriving DecidableEq

inductive SecretError
  | bothConfigured (name : Str)
  | empty (name : Str)
  | readFile (name : Str)
  deriving DecidableEq

def SecretError.message : SecretError → Str
  | .bothConfigured name => "configure either ".toList ++ name ++ " or ".toList ++ name ++ "_file, not both".toList
  | .empty name => name ++ " must not be empty".toList
  | .readFile name => "failed to read ".toList ++ name ++ "_file".toList

/-- `str::trim_end_matches(['\r', '\n'])` -/
def trimEndNewlines (s : Str) : Str := s.rdropWhile fun c => c == '\r' || c == '\n'

/-- `std::fs::read_to_string` -/
def FileRead.toStr : FileRead → Option Str
  | .contents bytes => fromUtf8 bytes
  | _ => none

/-- `file` is what reading the configured path gives. -/
def readOptionalSecret (value : Option Str) (file : Option FileRead) (name : Str) :
    Except SecretError (Option Str) :=
  match value, file with
  | some _, some _ => .error (.bothConfigured name)
  | some value, none => if blank value then .error (.empty name) else .ok (some value)
  | none, some file =>
    match file.toStr with
    | none => .error (.readFile name)
    | some contents =>
      let resolved := trimEndNewlines contents
      if blank resolved then .error (.empty name) else .ok (some resolved)
  | none, none => .ok none

inductive WebhookAuthError
  | secret (e : SecretError)
  | policy (e : AuthPolicyError)
  | severalModes
  | notConfigured
  deriving DecidableEq

def WebhookAuthError.message : WebhookAuthError → Str
  | .secret e => e.message
  | .policy e => e.message
  | .severalModes =>
    ("configure exactly one of BWESO_WEBHOOK_AUTH_TOKEN, BWESO_AUTH_POLICY_FILE, or " ++
      "BWESO_INSECURE_ALLOW_UNAUTHENTICATED=true").toList
  | .notConfigured =>
    ("configure BWESO_WEBHOOK_AUTH_TOKEN or BWESO_AUTH_POLICY_FILE, or explicitly set " ++
      "BWESO_INSECURE_ALLOW_UNAUTHENTICATED=true for local tests").toList

def WebhookAuth.fromConfig (prim : Primitives) (fromStr : Str → Option RawAuthPolicy) (token : Option Str)
    (tokenFile scopedPolicyFile : Option FileRead) (insecureAllowUnauthenticated : Bool) :
    Except WebhookAuthError WebhookAuth := do
  let token ← (readOptionalSecret token tokenFile "webhook_auth_token".toList).mapError .secret
  let configuredModes := token.isSome.toNat + scopedPolicyFile.isSome.toNat + insecureAllowUnauthenticated.toNat
  if 1 < configuredModes then throw .severalModes
  match token, scopedPolicyFile with
  | some token, _ => return .legacy (TokenDigest.new prim token)
  | none, some file =>
    let policy ← (ScopedAuthPolicy.fromFile prim fromStr file).mapError .policy
    return .scoped policy
  | none, none => if insecureAllowUnauthenticated then return .disabledInsecure else throw .notConfigured

def WebhookAuth.authorize (prim : Primitives) (auth : WebhookAuth) (headers : HeaderMap) :
    Option AuthorizedScope :=
  match auth with
  | .disabledInsecure => some .global
  | .legacy expected => do
    let supplied ← bearerToken headers
    if expected = TokenDigest.new prim supplied then some .global else none
  | .scoped policy => do
    let supplied ← bearerToken headers
    policy.authorize prim supplied

/-- The body of the loop of `spawn_auth_policy_reload`. -/
def authReloadCycle (prim : Primitives) (fromStr : Str → Option RawAuthPolicy)
    (s : ScopedAuthPolicy × ReloadMetrics) (cycle : FileRead × ℕ) : ScopedAuthPolicy × ReloadMetrics :=
  let (result, policy) := s.1.reload prim fromStr cycle.1
  (policy, s.2.recordReload (ReloadOutcome.of result) policy.rules.counts cycle.2)

/-- `main` before the auth reload task. -/
def authStartup (policy : ScopedAuthPolicy) (unixNow : ℕ) : ScopedAuthPolicy × ReloadMetrics :=
  (policy, ReloadMetrics.init.recordBaseline policy.rules.counts unixNow)

end Bweso
