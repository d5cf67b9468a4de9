import Bweso.Lib.Run
import Bweso.Spec.Api

/-! The vault cache of `BitwardenApiClient` with any number of concurrent
resolves. A call moves between its await points; the code between two awaits is
one step, split where it reads the clock again. The clock is monotone: only
`tick` moves it. A call may be dropped wherever it awaits. -/

namespace Bweso

/-- Nanoseconds of the monotonic clock. -/
abbrev Instant := ℕ
/-- Nanoseconds. -/
abbrev Duration := ℕ

def nanosPerSec : ℕ := 10 ^ 9

def Duration.fromSecs (seconds : ℕ) : Duration := seconds * nanosPerSec

/-- `Duration::MAX` -/
def Duration.max : Duration := 2 ^ 64 * nanosPerSec - 1

def Duration.saturatingAdd (a b : Duration) : Duration := min (a + b) Duration.max

/-- `Instant::checked_add` on Linux: the seconds are an `i64`. -/
def Instant.checkedAdd (t : Instant) (d : Duration) : Option Instant :=
  if (t + d) / nanosPerSec < 2 ^ 63 then some (t + d) else none

/-- `Instant::checked_sub`, with `none` also where the result would lie before
the clock's start; every comparison `now < deadline` fails there too. -/
def Instant.checkedSub (t : Instant) (d : Duration) : Option Instant :=
  if d ≤ t then some (t - d) else none

/-- `Instant::duration_since`, which saturates at zero. -/
def Instant.durationSince (now earlier : Instant) : Duration := now - earlier

structure BitwardenCacheConfig where
  ttl : Duration
  staleIfError : Duration
  refreshRetryInterval : Duration
  deriving DecidableEq

def tokenExpiryRefreshSkew : Duration := Duration.fromSecs 30

structure CachedVault where
  session : BitwardenSession
  sync : SyncResponse
  fetchedAt : Instant
  expiresAt : Option Instant
  refreshRetryAfter : Option Instant
  deriving DecidableEq

namespace CachedVault

def new (session : BitwardenSession) (sync : SyncResponse) (fetchedAt : Instant) : CachedVault :=
  { session, sync, fetchedAt
    expiresAt := session.expiresIn.bind fun seconds => fetchedAt.checkedAdd (Duration.fromSecs seconds)
    refreshRetryAfter := none }

def isFreshAt (v : CachedVault) (ttl : Duration) (now : Instant) : Bool :=
  if ttl = 0 ∨ ttl ≤ now.durationSince v.fetchedAt then false
  else match v.expiresAt with
    | some expiresAt => (expiresAt.checkedSub tokenExpiryRefreshSkew).any (now < ·)
    | none => true

def isWithinStaleIfErrorAt (v : CachedVault) (config : BitwardenCacheConfig) (now : Instant) : Bool :=
  config.staleIfError ≠ 0 &&
    now.durationSince v.fetchedAt < config.ttl.saturatingAdd config.staleIfError

def canDeferRefreshAt (v : CachedVault) (config : BitwardenCacheConfig) (now : Instant) : Bool :=
  v.isWithinStaleIfErrorAt config now && v.refreshRetryAfter.any (now < ·)

def deferRefreshUntil (v : CachedVault) (t : Instant) : CachedVault :=
  { v with refreshRetryAfter := some t }

end CachedVault

structure CacheMetricState where
  cacheHits : ℕ
  refreshSuccesses : ℕ
  refreshFailures : ℕ
  staleServes : ℕ
  lastSuccessUnixSeconds : ℕ
  deriving DecidableEq

/-- How `reuse_cached_sync_if_available` answers yes. -/
inductive Reuse
  | hit
  | deferred
  deriving DecidableEq

def reuseCachedSync (config : BitwardenCacheConfig) (cache : Option CachedVault) (now : Instant) :
    Option Reuse :=
  match cache with
  | none => none
  | some v =>
    if v.isFreshAt config.ttl now then some .hit
    else if v.canDeferRefreshAt config now then some .deferred
    else none

def CacheMetricState.countReuse (m : CacheMetricState) : Reuse → CacheMetricState
  | .hit => { m with cacheHits := m.cacheHits + 1 }
  | .deferred => { m with staleServes := m.staleServes + 1 }

abbrev CallId := ℕ

/-- Where a resolve stands. Every phase but `cooldown` and `failed` is an await
point, or an end. -/
inductive Phase
  | idle
  /-- entered `ensure_fresh_cached_sync`, awaiting the cache for the first check -/
  | ensure (selector : BitwardenSelector)
  | lockWait (selector : BitwardenSelector)
  /-- holds `refresh_lock`, awaiting the cache for the second check -/
  | locked (selector : BitwardenSelector)
  /-- the second check failed, about to look at the cooldown -/
  | cooldown (selector : BitwardenSelector)
  | fetching (selector : BitwardenSelector)
  /-- the fetch failed and the cooldown is set, about to try the stale cache -/
  | failed (selector : BitwardenSelector) (error : BitwardenClientError)
  /-- sampled the clock in `serve_stale_after_error`, awaiting the cache to write -/
  | staleWait (selector : BitwardenSelector) (error : BitwardenClientError) (sampled : Instant)
  /-- fetched a vault, awaiting the cache to store it -/
  | storeWait (selector : BitwardenSelector) (vault : CachedVault)
  /-- `ensure_fresh_cached_sync` returned `Ok`, awaiting the cache to read it -/
  | reading (selector : BitwardenSelector)
  | done (result : Except BitwardenClientError SecretDocument)
  | cancelled

/-- Whether a dropped future can be in this phase. -/
def Phase.awaits : Phase → Bool
  | .ensure _ | .lockWait _ | .locked _ | .fetching _ | .staleWait .. | .storeWait .. | .reading _ => true
  | _ => false

structure ClientState where
  cache : Option CachedVault
  /-- who holds `refresh_lock` -/
  refreshLock : Option CallId
  /-- the deadline inside `refresh_lock` -/
  retryAfter : Option Instant
  metrics : CacheMetricState
  now : Instant
  calls : CallId → Phase

def ClientState.init : ClientState :=
  { cache := none, refreshLock := none, retryAfter := none
    metrics := ⟨0, 0, 0, 0, 0⟩, now := 0, calls := fun _ => .idle }

inductive ClientEvent
  | tick (elapsed : Duration)
  | begin (c : CallId) (selector : BitwardenSelector)
  | checkCache (c : CallId)
  | acquireLock (c : CallId)
  | recheckCache (c : CallId)
  | checkCooldown (c : CallId)
  | fetchReturns (c : CallId) (up : Upstream) (unixNow : ℕ)
  | sampleStale (c : CallId)
  | serveStale (c : CallId)
  | storeVault (c : CallId)
  | readCache (c : CallId)
  | cancel (c : CallId)

/-- A client: what it connects to and how it caches. -/
structure Client where
  config : ClientConfig
  cache : BitwardenCacheConfig

namespace ClientState

def setPhase (s : ClientState) (c : CallId) (p : Phase) : ClientState :=
  { s with calls := Function.update s.calls c p }

/-- Dropping the guard of `refresh_lock`. -/
def unlock (s : ClientState) : ClientState := { s with refreshLock := none }

/-- A drop: the guard, if the call holds it, goes with the call. -/
def dropCall (s : ClientState) (c : CallId) : ClientState :=
  let s := s.setPhase c .cancelled
  if s.refreshLock = some c then s.unlock else s

end ClientState

namespace Client

variable (client : Client)

/-- The stale cache after a failed refresh: `serve_stale_after_error` once the
cache is locked, at the clock sample it took before. -/
def serveStaleAfterError (s : ClientState) (sampled : Instant) : Option ClientState :=
  match s.cache with
  | none => none
  | some v =>
    if v.isWithinStaleIfErrorAt client.cache sampled then
      let until_ := (sampled.checkedAdd client.cache.refreshRetryInterval).getD sampled
      some { s with cache := some (v.deferRefreshUntil until_)
                    metrics := { s.metrics with staleServes := s.metrics.staleServes + 1 } }
    else none

/-- What `fetch_vault` leaves behind before its caller awaits again. -/
def afterFetch (s : ClientState) (c : CallId) (selector : BitwardenSelector) (unixNow : ℕ) :
    Except BitwardenClientError (BitwardenSession × SyncResponse) → ClientState
  | .ok (session, sync) =>
    { s with retryAfter := none
             metrics := { s.metrics with refreshSuccesses := s.metrics.refreshSuccesses + 1
                                         lastSuccessUnixSeconds := unixNow } }.setPhase c
      (.storeWait selector (CachedVault.new session sync s.now))
  | .error e =>
    { s with retryAfter := s.now.checkedAdd client.cache.refreshRetryInterval
             metrics := { s.metrics with refreshFailures := s.metrics.refreshFailures + 1 } }.setPhase c
      (.failed selector e)

/-- The document of the selector in the vault now cached. -/
def readCached (s : ClientState) (selector : BitwardenSelector) :
    Except BitwardenClientError SecretDocument :=
  match s.cache with
  | none => .error (.api .missingCachedSync)
  | some v => resolveFromSync client.config.prim v.sync v.session.userKey selector

def step (s : ClientState) : ClientEvent → Option ClientState
  | .tick elapsed => some { s with now := s.now + elapsed }
  | .begin c selector =>
    match s.calls c with
    | .idle => some (s.setPhase c (.ensure selector))
    | _ => none
  | .checkCache c =>
    match s.calls c with
    | .ensure selector =>
      match reuseCachedSync client.cache s.cache s.now with
      | some r => some ({ s with metrics := s.metrics.countReuse r }.setPhase c (.reading selector))
      | none => some (s.setPhase c (.lockWait selector))
    | _ => none
  | .acquireLock c =>
    match s.calls c, s.refreshLock with
    | .lockWait selector, none => some ({ s with refreshLock := some c }.setPhase c (.locked selector))
    | _, _ => none
  | .recheckCache c =>
    match s.calls c with
    | .locked selector =>
      match reuseCachedSync client.cache s.cache s.now with
      | some r =>
        some ({ s with metrics := s.metrics.countReuse r }.setPhase c (.reading selector)).unlock
      | none => some (s.setPhase c (.cooldown selector))
    | _ => none
  | .checkCooldown c =>
    match s.calls c with
    | .cooldown selector =>
      if s.retryAfter.any (s.now < ·) then
        some (s.setPhase c (.done (.error (.api .refreshThrottled)))).unlock
      else some (s.setPhase c (.fetching selector))
    | _ => none
  | .fetchReturns c up unixNow =>
    match s.calls c with
    | .fetching selector => some (client.afterFetch s c selector unixNow (fetchVault client.config up))
    | _ => none
  | .sampleStale c =>
    match s.calls c with
    | .failed selector e =>
      if e.permitsStaleCache then some (s.setPhase c (.staleWait selector e s.now))
      else some (s.setPhase c (.done (.error e))).unlock
    | _ => none
  | .serveStale c =>
    match s.calls c with
    | .staleWait selector e sampled =>
      match client.serveStaleAfterError s sampled with
      | some s' => some (s'.setPhase c (.reading selector)).unlock
      | none => some (s.setPhase c (.done (.error e))).unlock
    | _ => none
  | .storeVault c =>
    match s.calls c with
    | .storeWait selector v => some ({ s with cache := some v }.setPhase c (.reading selector)).unlock
    | _ => none
  | .readCache c =>
    match s.calls c with
    | .reading selector => some (s.setPhase c (.done (client.readCached s selector)))
    | _ => none
  | .cancel c => if (s.calls c).awaits then some (s.dropCall c) else none

/-- The runs of a client from its construction. -/
abbrev Runs (tr : List (ClientState × ClientEvent)) (s : ClientState) : Prop :=
  Run client.step ClientState.init tr s

end Client

end Bweso
