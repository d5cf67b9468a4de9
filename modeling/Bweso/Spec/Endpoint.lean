import Bweso.Lib.Recording
import Bweso.Spec.Api

/-! The endpoint half of `lib.rs`: which base URLs are accepted and the upstream
bases made from them, and the requests of one fetch in the order they are sent.
The `url` crate is a parameter. -/

namespace Bweso

/-! ### Hosts -/

structure Ipv4Addr where
  a : UInt8
  b : UInt8
  c : UInt8
  d : UInt8
  deriving DecidableEq

/-- The 128 bits of an address. -/
structure Ipv6Addr where
  bits : BitVec 128
  deriving DecidableEq

/-- `url::Host` -/
inductive Host
  | domain (name : Str)
  | ipv4 (addr : Ipv4Addr)
  | ipv6 (addr : Ipv6Addr)
  deriving DecidableEq

/-- Dotted decimal. -/
def Ipv4Addr.text (addr : Ipv4Addr) : Str :=
  ['.'].intercalate ([addr.a, addr.b, addr.c, addr.d].map fun n => Nat.toDigits 10 n.toNat)

/-- `127.0.0.1` -/
def Ipv4Addr.localhost : Ipv4Addr := ⟨127, 0, 0, 1⟩

/-- `::1` -/
def Ipv6Addr.localhost : Ipv6Addr := ⟨1⟩

/-- `host_str`: an IPv6 address stands in brackets. -/
def Host.str (ipv6Text : Ipv6Addr → Str) : Host → Str
  | .domain name => name
  | .ipv4 addr => addr.text
  | .ipv6 addr => '[' :: (ipv6Text addr ++ [']'])

/-! ### The `url` crate -/

structure UrlCrate where
  /-- `Url::parse` -/
  parse : Str → Option Url
  /-- `Url::host` -/
  host : Url → Option Host
  ipv6Text : Ipv6Addr → Str
  /-- `Url::set_path` -/
  setPath : Url → Str → Url
  /-- The characters a path segment keeps as they are. -/
  pathChar : Char → Bool

def http : Str := "http".toList
def https : Str := "https".toList

/-- A segment that the parser would resolve away. -/
def dotSegment (s : Str) : Bool :=
  [".".toList, "%2e".toList, "..".toList, ".%2e".toList, "%2e.".toList, "%2e%2e".toList].contains
    (s.map toAsciiLowercase)

def UrlCrate.normalSegment (c : UrlCrate) (s : Str) : Bool := s.all c.pathChar && !dotSegment s

/-- `/s₁/s₂/…` -/
def joinSegments (segments : List Str) : Str := segments.flatMap ('/' :: ·)

/-- How hosts are parsed and written back. -/
structure UrlCrate.DocumentedHosts (c : UrlCrate) : Prop where
  /-- a blank text has no scheme -/
  notBlank : ∀ raw u, c.parse raw = some u → blank raw = false
  hostStr : ∀ raw u, c.parse raw = some u → u.host = (c.host u).map (Host.str c.ipv6Text)
  /-- a domain has no forbidden code point, and a domain that reads as an IPv4 address is one -/
  domain : ∀ raw u name, c.parse raw = some u → u.scheme = http → c.host u = some (.domain name) →
    ':' ∉ name ∧ ∀ addr : Ipv4Addr, name ≠ addr.text

/-- How the paths of `http` and `https` URLs are parsed and set. -/
structure UrlCrate.DocumentedPaths (c : UrlCrate) : Prop where
  slash : c.pathChar '/' = false
  letter : ∀ ch, 'a' ≤ ch → ch ≤ 'z' → c.pathChar ch = true
  /-- such a URL is a base, and its path is a list of segments with nothing left to encode or resolve -/
  parsed : ∀ raw u, c.parse raw = some u → u.scheme = http ∨ u.scheme = https → u.cannotBeABase = false ∧
    ∃ segments, segments ≠ [] ∧ u.path = joinSegments segments ∧ ∀ s ∈ segments, c.normalSegment s = true
  setPath_normal : ∀ u segments, u.scheme = http ∨ u.scheme = https → u.cannotBeABase = false → segments ≠ [] →
    (∀ s ∈ segments, c.normalSegment s = true) →
      c.setPath u (joinSegments segments) = { u with path := joinSegments segments }
  setPath_empty : ∀ u, u.scheme = http ∨ u.scheme = https → u.cannotBeABase = false →
    c.setPath u [] = { u with path := "/".toList }

/-! ### Endpoints -/

structure BitwardenEndpoint where
  baseUrl : Url
  deriving DecidableEq

section
variable (c : UrlCrate)

def BitwardenEndpoint.parseNamed (raw fieldName : Str) : Except BitwardenClientError BitwardenEndpoint := do
  (requireNonEmpty raw fieldName).mapError .validation
  let some baseUrl := c.parse raw
    | throw .invalidEndpoint
  let host := baseUrl.host.getD []
  let isLocalhost := host == "localhost".toList || host == "127.0.0.1".toList || host == "::1".toList
  if baseUrl.scheme ≠ https && !(baseUrl.scheme = http && isLocalhost) then throw .insecureEndpoint
  return { baseUrl }

def BitwardenEndpoint.parse (raw : Str) : Except BitwardenClientError BitwardenEndpoint :=
  parseNamed c raw "single_origin_url".toList

/-- `str::trim_end_matches('/')` -/
def trimEndSlashes (path : Str) : Str := path.rdropWhile (· == '/')

def appendPathSegments (baseUrl : Url) (segments : List Str) : Url :=
  let url := { baseUrl with query := none, fragment := none }
  let path := segments.foldl (fun path segment => path ++ '/' :: Text.trimBy (· == '/') segment)
    (trimEndSlashes url.path)
  c.setPath url path

def normalizeEndpointBase (baseUrl : Url) : Url := appendPathSegments c baseUrl []

def BitwardenEndpoints.fromSingleOrigin (endpoint : BitwardenEndpoint) : BitwardenEndpoints :=
  { identityUrl := appendPathSegments c endpoint.baseUrl ["identity".toList]
    apiUrl := appendPathSegments c endpoint.baseUrl ["api".toList] }

def BitwardenEndpoints.parseSplit (identityUrl apiUrl : Str) : Except BitwardenClientError BitwardenEndpoints := do
  let identity ← BitwardenEndpoint.parseNamed c identityUrl "identity_url".toList
  let api ← BitwardenEndpoint.parseNamed c apiUrl "api_url".toList
  return { identityUrl := normalizeEndpointBase c identity.baseUrl
           apiUrl := normalizeEndpointBase c api.baseUrl }

end

/-! ### Requests -/

inductive UpstreamRequest
  | token (url : Url) (form : ApiKeyTokenRequest)
  | sync (url : Url) (accessToken : Str)
  deriving DecidableEq

/-- A computation that sends requests. -/
abbrev Requesting (α : Type) := Recording UpstreamRequest BitwardenClientError α

section
variable (cfg : ClientConfig) (up : Upstream)

def loginWithApiKeyRecorded : Requesting BitwardenSession := do
  let url ← Recording.silent
    ((endpointUrl cfg.endpoints.identityUrl ["connect".toList, "token".toList]).mapError .api)
  let reply ← Recording.record (.token url (tokenRequest cfg)) (up.token url (tokenRequest cfg))
  let response ← Recording.silent ((decodeJson cfg.serde.tokenResponse "token".toList reply).mapError .api)
  if !up.unlockTask then throw (.api .unlockTaskFailed)
  Recording.silent (unlockSession cfg.prim response cfg.auth.masterPassword cfg.argon2MemoryLimitMib)

def syncRecorded (session : BitwardenSession) : Requesting SyncResponse := do
  let url ← Recording.silent ((endpointUrl cfg.endpoints.apiUrl ["sync".toList]).mapError .api)
  let url := { url with query := some "excludeDomains=true".toList }
  let reply ← Recording.record (.sync url session.accessToken) (up.sync url session.accessToken)
  Recording.silent ((decodeJson cfg.serde.syncResponse "sync".toList reply).mapError .api)

def fetchVaultRecorded : Requesting (BitwardenSession × SyncResponse) := do
  let session ← loginWithApiKeyRecorded cfg up
  let response ← syncRecorded cfg up session
  return (session, response)

end

end Bweso
