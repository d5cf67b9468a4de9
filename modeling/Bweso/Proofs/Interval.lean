import Bweso.Proofs.Masking

/-! A failed refresh and a later request, under two retry intervals. A longer
interval holds the request back at least as long, as long as its deadlines are
representable; past the end of the clock the code drops them. -/

namespace Bweso

/-- As `cache_refresh_retry_interval_seconds` sets it. -/
def Client.withRetryInterval (client : Client) (seconds : ℕ) : Client :=
  { client with cache := { client.cache with refreshRetryInterval := Duration.fromSecs seconds } }

section
variable (client : Client) (seconds : ℕ)

@[simp] theorem Client.withRetryInterval_config : (client.withRetryInterval seconds).config = client.config := rfl
@[simp] theorem Client.withRetryInterval_ttl : (client.withRetryInterval seconds).cache.ttl = client.cache.ttl := rfl
@[simp] theorem Client.withRetryInterval_staleIfError :
    (client.withRetryInterval seconds).cache.staleIfError = client.cache.staleIfError := rfl
@[simp] theorem Client.withRetryInterval_refreshRetryInterval :
    (client.withRetryInterval seconds).cache.refreshRetryInterval = Duration.fromSecs seconds := rfl

theorem CachedVault.isWithinStaleIfErrorAt_withRetryInterval (v : CachedVault) (now : Instant) :
    v.isWithinStaleIfErrorAt (client.withRetryInterval seconds).cache now =
      v.isWithinStaleIfErrorAt client.cache now := by
  rw [Bool.eq_iff_iff, isWithinStaleIfErrorAt_iff, isWithinStaleIfErrorAt_iff, Client.withRetryInterval_ttl,
    Client.withRetryInterval_staleIfError]

end

/-- The refresh of the call `c` fails, and later the request `d` comes. -/
structure FailedRefresh where
  client : Client
  /-- `fetch_vault` returns in this state -/
  state : ClientState
  c : CallId
  selector : BitwardenSelector
  up : Upstream
  unixNow : ℕ
  error : BitwardenClientError
  /-- until `serve_stale_after_error` samples the clock -/
  toSample : Duration
  /-- until it has the cache -/
  toWrite : Duration
  /-- until the request -/
  toRequest : Duration
  d : CallId
  request : BitwardenSelector
  refreshing : state.calls c = .fetching selector
  fails : fetchVault client.config up = .error error
  new : state.calls d = .idle

namespace FailedRefresh

variable (r : FailedRefresh)

def failedAt : Instant := r.state.now

def sampledAt : Instant := r.failedAt + r.toSample

def requestedAt : Instant := r.sampledAt + r.toWrite + r.toRequest

def failureEvents : List ClientEvent :=
  [.fetchReturns r.c r.up r.unixNow, .tick r.toSample, .sampleStale r.c, .tick r.toWrite] ++
    if r.error.permitsStaleCache then [.serveStale r.c] else []

def requestEvents : List ClientEvent :=
  [.tick r.toRequest, .begin r.d r.request, .checkCache r.d, .acquireLock r.d, .recheckCache r.d, .checkCooldown r.d]

/-- The request gets to `fetch_vault`. -/
def startsFetch (seconds : ℕ) : Bool :=
  (Run.exec (r.client.withRetryInterval seconds).step r.state (r.failureEvents ++ r.requestEvents)).any
    fun x => (x.2.calls r.d).isFetching

/-- The failed refresh is answered from the vault `v`. -/
def servesStale (v : CachedVault) : Bool :=
  r.error.permitsStaleCache && v.isWithinStaleIfErrorAt r.client.cache r.sampledAt

/-- The request needs no deadline of this failure: the vault is fresh, or an
earlier deferral that this failure leaves in place still holds. -/
def answered : Bool :=
  r.state.cache.any fun v => v.isFreshAt r.client.cache.ttl r.requestedAt ||
    !r.servesStale v && v.canDeferRefreshAt r.client.cache r.requestedAt

/-- The vault that answered the failed refresh may still be served. -/
def deferrable : Bool :=
  r.state.cache.any fun v => r.servesStale v && v.isWithinStaleIfErrorAt r.client.cache r.requestedAt

end FailedRefresh

/-- The end of the clock: the `Instant`s below it are representable. -/
def clockEnd : Instant := 2 ^ 63 * nanosPerSec

theorem checkedAdd_eq (t : Instant) (d : Duration) :
    t.checkedAdd d = if t + d < clockEnd then some (t + d) else none := by
  have hiff : (t + d) / nanosPerSec < 2 ^ 63 ↔ t + d < clockEnd := Nat.div_lt_iff_lt_mul (Nat.pos_of_ne_zero (by decide))
  simp only [Instant.checkedAdd, hiff]

/-- A deadline `interval` after `sample`, if it is representable, holds at `t`. -/
def holdsAt (sample : Instant) (interval : Duration) (t : Instant) : Prop :=
  sample + interval < clockEnd ∧ t < sample + interval

theorem any_checkedAdd_iff {sample t : Instant} {interval : Duration} :
    (sample.checkedAdd interval).any (t < ·) = true ↔ holdsAt sample interval t := by
  rw [checkedAdd_eq, holdsAt]
  split
  · rename_i hrep
    rw [Option.any_some, decide_eq_true_iff]
    exact ⟨fun h => ⟨hrep, h⟩, fun h => h.2⟩
  · rename_i hrep
    rw [Option.any_none]
    refine ⟨fun h => ?_, fun h => absurd h.1 hrep⟩
    cases h

/-- Past its end the clock leaves the sample itself, and that is over. -/
theorem lt_deadline_iff {sample t : Instant} {interval : Duration} (h : sample ≤ t) :
    t < (sample.checkedAdd interval).getD sample ↔ holdsAt sample interval t := by
  rw [checkedAdd_eq, holdsAt]
  split
  · rename_i hrep
    exact ⟨fun hlt => ⟨hrep, hlt⟩, fun hlt => hlt.2⟩
  · rename_i hrep
    exact ⟨fun hlt => absurd hlt (not_lt.mpr h), fun hlt => absurd hlt.1 hrep⟩

namespace Client

variable {client : Client} {s : ClientState} {d : CallId} {request : BitwardenSelector}

/-- A request alone gets to `fetch_vault` when nothing can be reused and no
cooldown holds. -/
theorem exec_request (hidle : s.calls d = .idle) (hfree : s.refreshLock = none) :
    (Run.exec client.step s [.begin d request, .checkCache d, .acquireLock d, .recheckCache d,
      .checkCooldown d]).any (fun x => (x.2.calls d).isFetching) = true ↔
      reuseCachedSync client.cache s.cache s.now = none ∧ s.retryAfter.any (s.now < ·) = false := by
  have hbegin : client.step s (.begin d request) = some (s.setPhase d (.ensure request)) := by
    simp only [step, hidle]
  rw [Run.exec_any_cons (P := fun s => (s.calls d).isFetching) hbegin]
  set s₁ := s.setPhase d (.ensure request)
  have hs₁ : s₁.calls d = .ensure request := ClientState.setPhase_calls_self _ _ _
  cases hr : reuseCachedSync client.cache s.cache s.now with
  | some reuse =>
    have hhit : client.step s₁ (.checkCache d) =
        some ({ s₁ with metrics := s₁.metrics.countReuse reuse }.setPhase d (.reading request)) := by
      have hreuse : reuseCachedSync client.cache s₁.cache s₁.now = some reuse := hr
      simp only [step, hs₁, hreuse]
    have hstuck : client.step ({ s₁ with metrics := s₁.metrics.countReuse reuse }.setPhase d (.reading request))
        (.acquireLock d) = none := by
      simp only [step, ClientState.setPhase_calls_self]
    rw [Run.exec_any_cons (P := fun s => (s.calls d).isFetching) hhit,
      Run.exec_any_stuck (P := fun s => (s.calls d).isFetching) hstuck]
    simp
  | none =>
    have hmiss : client.step s₁ (.checkCache d) = some (s₁.setPhase d (.lockWait request)) := by
      have hreuse : reuseCachedSync client.cache s₁.cache s₁.now = none := hr
      simp only [step, hs₁, hreuse]
    rw [Run.exec_any_cons (P := fun s => (s.calls d).isFetching) hmiss]
    set s₂ := s₁.setPhase d (.lockWait request)
    have hs₂ : s₂.calls d = .lockWait request := ClientState.setPhase_calls_self _ _ _
    have hacquire : client.step s₂ (.acquireLock d) =
        some ({ s₂ with refreshLock := some d }.setPhase d (.locked request)) := by
      have hlock : s₂.refreshLock = none := hfree
      simp only [step, hs₂, hlock]
    rw [Run.exec_any_cons (P := fun s => (s.calls d).isFetching) hacquire]
    set s₃ := { s₂ with refreshLock := some d }.setPhase d (.locked request)
    have hs₃ : s₃.calls d = .locked request := ClientState.setPhase_calls_self _ _ _
    have hremiss : client.step s₃ (.recheckCache d) = some (s₃.setPhase d (.cooldown request)) := by
      have hreuse : reuseCachedSync client.cache s₃.cache s₃.now = none := hr
      simp only [step, hs₃, hreuse]
    rw [Run.exec_any_cons (P := fun s => (s.calls d).isFetching) hremiss]
    set s₄ := s₃.setPhase d (.cooldown request)
    have hs₄ : s₄.calls d = .cooldown request := ClientState.setPhase_calls_self _ _ _
    have hretry : s₄.retryAfter.any (s₄.now < ·) = s.retryAfter.any (s.now < ·) := rfl
    cases hd : s.retryAfter.any (s.now < ·) with
    | true =>
      have hthrottled : client.step s₄ (.checkCooldown d) =
          some (s₄.setPhase d (.done (.error (.api .refreshThrottled)))).unlock := by
        simp only [step, hs₄, hretry, hd, if_true]
      rw [Run.exec_any_cons (P := fun s => (s.calls d).isFetching) hthrottled]
      simp
    | false =>
      have hfetch : client.step s₄ (.checkCooldown d) = some (s₄.setPhase d (.fetching request)) := by
        simp only [step, hs₄, hretry, hd, Bool.false_eq_true, if_false]
      rw [Run.exec_any_cons (P := fun s => (s.calls d).isFetching) hfetch]
      simp

end Client

namespace FailedRefresh

variable {r : FailedRefresh}

theorem ne_call : r.d ≠ r.c := by
  intro h
  have hnew := r.new
  rw [h, r.refreshing] at hnew
  cases hnew

/-- The cache after the failed refresh. -/
def settledCache (r : FailedRefresh) (interval : Duration) : Option CachedVault :=
  r.state.cache.map fun v =>
    if r.servesStale v then v.deferRefreshUntil ((r.sampledAt.checkedAdd interval).getD r.sampledAt) else v

/-- What the failed refresh leaves to the request. -/
theorem exec_settled (r : FailedRefresh) {client : Client} (hconfig : client.config = r.client.config)
    (hwithin : ∀ (v : CachedVault) now,
      v.isWithinStaleIfErrorAt client.cache now = v.isWithinStaleIfErrorAt r.client.cache now) :
    ∃ s₁ : ClientState, s₁.refreshLock = none ∧ s₁.now = r.sampledAt + r.toWrite ∧ s₁.calls r.d = .idle ∧
      s₁.retryAfter = r.failedAt.checkedAdd client.cache.refreshRetryInterval ∧
      s₁.cache = r.settledCache client.cache.refreshRetryInterval ∧
      (Run.exec client.step r.state (r.failureEvents ++ r.requestEvents)).any
          (fun x => (x.2.calls r.d).isFetching) =
        (Run.exec client.step s₁ r.requestEvents).any fun x => (x.2.calls r.d).isFetching := by
  have hother : ∀ {s : ClientState} {p : Phase}, (s.setPhase r.c p).calls r.d = s.calls r.d :=
    ClientState.setPhase_calls_ne _ _ _ ne_call
  have tick : ∀ s elapsed, client.step s (.tick elapsed) = some { s with now := s.now + elapsed } := fun _ _ => rfl
  obtain ⟨s₁, hreturns, hs₁, hd, hnow, hretry, hcache⟩ : ∃ s₁ : ClientState,
      client.step r.state (.fetchReturns r.c r.up r.unixNow) = some s₁ ∧ s₁.calls r.c = .failed r.selector r.error ∧
      s₁.calls r.d = .idle ∧ s₁.now = r.failedAt ∧ s₁.retryAfter = r.failedAt.checkedAdd client.cache.refreshRetryInterval ∧
      s₁.cache = r.state.cache := by
    have hfails : fetchVault client.config r.up = .error r.error := by
      rw [hconfig, r.fails]
    refine ⟨client.afterFetch r.state r.c r.selector r.unixNow (.error r.error), ?_, ?_, ?_, ?_, ?_, ?_⟩
    · simp only [Client.step, r.refreshing, hfails]
    · exact ClientState.setPhase_calls_self _ _ _
    · exact hother.trans r.new
    · simp only [Client.afterFetch, ClientState.setPhase_now, failedAt]
    · simp only [Client.afterFetch, ClientState.setPhase_retryAfter, failedAt]
    · simp only [Client.afterFetch, ClientState.setPhase_cache]
  rw [failureEvents, List.append_assoc, List.cons_append, List.cons_append, List.cons_append, List.cons_append,
    List.nil_append, Run.exec_any_cons (P := fun s => (s.calls r.d).isFetching) hreturns,
    Run.exec_any_cons (P := fun s => (s.calls r.d).isFetching) (tick _ _)]
  set s₂ := { s₁ with now := s₁.now + r.toSample }
  have hsampled : s₂.now = r.sampledAt := congrArg (· + r.toSample) hnow
  have hs₂ : s₂.calls r.c = .failed r.selector r.error := hs₁
  cases hp : r.error.permitsStaleCache with
  | false =>
    have hgiveUp : client.step s₂ (.sampleStale r.c) = some (s₂.setPhase r.c (.done (.error r.error))).unlock := by
      simp only [Client.step, hs₂, hp, Bool.false_eq_true, if_false]
    rw [Run.exec_any_cons (P := fun s => (s.calls r.d).isFetching) hgiveUp,
      Run.exec_any_cons (P := fun s => (s.calls r.d).isFetching) (tick _ _), if_neg Bool.false_ne_true,
      List.nil_append]
    refine ⟨_, ?_, ?_, ?_, ?_, ?_, rfl⟩
    · rfl
    · exact congrArg (· + r.toWrite) hsampled
    · exact hother.trans hd
    · exact hretry
    have hserves : ∀ v, r.servesStale v = false := by
      intro v
      rw [servesStale, hp, Bool.false_and]
    simp only [settledCache, hserves, Bool.false_eq_true, if_false, Option.map_id']
    exact hcache
  | true =>
    have hsample : client.step s₂ (.sampleStale r.c) =
        some (s₂.setPhase r.c (.staleWait r.selector r.error s₂.now)) := by
      simp only [Client.step, hs₂, hp, if_true]
    set waiting := s₂.setPhase r.c (.staleWait r.selector r.error s₂.now)
    rw [Run.exec_any_cons (P := fun s => (s.calls r.d).isFetching) hsample,
      Run.exec_any_cons (P := fun s => (s.calls r.d).isFetching) (tick _ _), if_pos rfl, List.cons_append,
      List.nil_append]
    set s₃ := { waiting with now := waiting.now + r.toWrite }
    have hs₃ : s₃.calls r.c = .staleWait r.selector r.error r.sampledAt := by
      rw [← hsampled]
      exact ClientState.setPhase_calls_self _ _ _
    have hserves : ∀ v : CachedVault, r.servesStale v = v.isWithinStaleIfErrorAt client.cache r.sampledAt := by
      intro v
      rw [servesStale, hp, Bool.true_and, hwithin]
    cases hstale : client.serveStaleAfterError s₃ r.sampledAt with
    | none =>
      have hexpired : client.step s₃ (.serveStale r.c) = some (s₃.setPhase r.c (.done (.error r.error))).unlock := by
        simp only [Client.step, hs₃, hstale]
      rw [Run.exec_any_cons (P := fun s => (s.calls r.d).isFetching) hexpired]
      refine ⟨_, ?_, ?_, ?_, ?_, ?_, rfl⟩
      · rfl
      · exact congrArg (· + r.toWrite) hsampled
      · exact hother.trans (hother.trans hd)
      · exact hretry
      refine hcache.trans ?_
      unfold settledCache
      cases hv : r.state.cache with
      | none => rfl
      | some v =>
        have hnot : r.servesStale v = false := by
          rw [hserves]
          by_contra hserved
          have hsome := (Client.serveStaleAfterError_eq_some client (s := s₃)).mpr
            ⟨v, hcache.trans hv, Bool.eq_true_of_not_eq_false hserved, rfl⟩
          rw [hstale] at hsome
          cases hsome
        rw [Option.map_some, hnot, if_neg Bool.false_ne_true]
    | some s₄ =>
      have hserve : client.step s₃ (.serveStale r.c) = some (s₄.setPhase r.c (.reading r.selector)).unlock := by
        simp only [Client.step, hs₃, hstale]
      obtain ⟨v, hv, hserved, rfl⟩ := (Client.serveStaleAfterError_eq_some client).mp hstale
      rw [Run.exec_any_cons (P := fun s => (s.calls r.d).isFetching) hserve]
      refine ⟨_, ?_, ?_, ?_, ?_, ?_, rfl⟩
      · rfl
      · exact congrArg (· + r.toWrite) hsampled
      · exact hother.trans (hother.trans hd)
      · exact hretry
      have hstate : r.state.cache = some v := hcache.symm.trans hv
      rw [settledCache, hstate, Option.map_some, hserves v, if_pos hserved]
      rfl

theorem sampledAt_le : r.sampledAt ≤ r.requestedAt :=
  (Nat.le_add_right _ _).trans (Nat.le_add_right _ _)

/-- What the deferral of the failed refresh leaves to reuse. -/
theorem reuse_settled {config : BitwardenCacheConfig} {interval : Duration} (httl : config.ttl = r.client.cache.ttl)
    (hwithin : ∀ (v : CachedVault) now,
      v.isWithinStaleIfErrorAt config now = v.isWithinStaleIfErrorAt r.client.cache now) :
    reuseCachedSync config (r.settledCache interval) r.requestedAt = none ↔
      r.answered = false ∧ ¬ (r.deferrable = true ∧ holdsAt r.sampledAt interval r.requestedAt) := by
  unfold settledCache answered deferrable
  cases hv : r.state.cache with
  | none => simp [reuseCachedSync]
  | some v =>
    rw [reuseCachedSync_eq_none, httl]
    simp only [Option.map_some, Option.some.injEq, forall_eq', Option.any_some]
    cases hserved : r.servesStale v with
    | false =>
      have hdefer : v.canDeferRefreshAt config r.requestedAt = v.canDeferRefreshAt r.client.cache r.requestedAt := by
        rw [CachedVault.canDeferRefreshAt, CachedVault.canDeferRefreshAt, hwithin]
      simp [hdefer]
    | true =>
      set until_ := (r.sampledAt.checkedAdd interval).getD r.sampledAt
      have hfresh : ∀ ttl now, (v.deferRefreshUntil until_).isFreshAt ttl now = v.isFreshAt ttl now := fun _ _ => rfl
      have hdefer : (v.deferRefreshUntil until_).canDeferRefreshAt config r.requestedAt =
          (v.isWithinStaleIfErrorAt r.client.cache r.requestedAt && decide (r.requestedAt < until_)) := by
        rw [← hwithin]
        rfl
      rw [if_pos rfl, hfresh, hdefer, ← lt_deadline_iff sampledAt_le]
      cases v.isFreshAt r.client.cache.ttl r.requestedAt with
      | true => simp
      | false => cases v.isWithinStaleIfErrorAt r.client.cache r.requestedAt <;> simp [until_]

/-- The request starts a fetch unless it is answered or a deadline holds it back. -/
theorem startsFetch_iff {seconds : ℕ} : r.startsFetch seconds = true ↔ r.answered = false ∧
    ¬ holdsAt r.failedAt (.fromSecs seconds) r.requestedAt ∧
      ¬ (r.deferrable = true ∧ holdsAt r.sampledAt (.fromSecs seconds) r.requestedAt) := by
  have hwithin := fun (v : CachedVault) now => v.isWithinStaleIfErrorAt_withRetryInterval r.client seconds now
  obtain ⟨s₁, hlock, hnow, hd, hretry, hcache, hexec⟩ :=
    r.exec_settled (r.client.withRetryInterval_config seconds) hwithin
  rw [Client.withRetryInterval_refreshRetryInterval] at hretry hcache
  have htick : (r.client.withRetryInterval seconds).step s₁ (.tick r.toRequest) =
      some { s₁ with now := s₁.now + r.toRequest } := rfl
  have hlater : s₁.now + r.toRequest = r.requestedAt := by
    rw [hnow]
    rfl
  have hrequest := @Client.exec_request (r.client.withRetryInterval seconds)
    { s₁ with now := s₁.now + r.toRequest } r.d r.request hd hlock
  rw [startsFetch, hexec, requestEvents, Run.exec_any_cons (P := fun s => (s.calls r.d).isFetching) htick, hrequest]
  dsimp only
  rw [hlater, hcache, hretry, reuse_settled (r.client.withRetryInterval_ttl seconds) hwithin,
    ← Bool.not_eq_true (Option.any _ _), any_checkedAdd_iff]
  tauto

variable (r) in
/-- A deadline that holds the request back under the shorter interval is past the
end of the clock under the longer one, and no other takes its place. -/
inductive DeadlineLost (seconds seconds' : ℕ) : Prop
  | cooldown (hpending : r.answered = false) (hholds : holdsAt r.failedAt (.fromSecs seconds) r.requestedAt)
      (hlost : clockEnd ≤ r.failedAt + Duration.fromSecs seconds')
  | deferral (hpending : r.answered = false) (hdeferrable : r.deferrable = true)
      (hholds : holdsAt r.sampledAt (.fromSecs seconds) r.requestedAt)
      (hlost : clockEnd ≤ r.sampledAt + Duration.fromSecs seconds')
      (hcooldown : clockEnd ≤ r.failedAt + Duration.fromSecs seconds' ∨
        r.failedAt + Duration.fromSecs seconds' ≤ r.requestedAt)

end FailedRefresh

theorem quiet_iff {r : FailedRefresh} {seconds : ℕ} (hpending : r.answered = false) :
    r.startsFetch seconds = false ↔ holdsAt r.failedAt (.fromSecs seconds) r.requestedAt ∨
      r.deferrable = true ∧ holdsAt r.sampledAt (.fromSecs seconds) r.requestedAt := by
  rw [← Bool.not_eq_true, FailedRefresh.startsFetch_iff]
  tauto

/-- A longer retry interval holds a request back if the shorter one does, exactly
unless the clock cannot represent the longer one's deadline. -/
theorem longer_interval_iff (r : FailedRefresh) (seconds seconds' : ℕ) (hle : seconds ≤ seconds') :
    (r.startsFetch seconds = false → r.startsFetch seconds' = false) ↔ ¬ r.DeadlineLost seconds seconds' := by
  have hdur : Duration.fromSecs seconds ≤ Duration.fromSecs seconds' := Nat.mul_le_mul_right _ hle
  have hsample : r.failedAt ≤ r.sampledAt := Nat.le_add_right _ _
  refine ⟨fun hmono hlost => ?_, fun hno hquiet => ?_⟩
  · cases hlost with
    | cooldown hpending hholds hlost =>
      rcases (quiet_iff hpending).mp (hmono ((quiet_iff hpending).mpr (Or.inl hholds))) with h | ⟨-, h⟩
      · exact absurd h.1 (not_lt.mpr hlost)
      · exact absurd h.1 (not_lt.mpr (hlost.trans (Nat.add_le_add_right hsample _)))
    | deferral hpending hdeferrable hholds hlost hcooldown =>
      rcases (quiet_iff hpending).mp (hmono ((quiet_iff hpending).mpr (Or.inr ⟨hdeferrable, hholds⟩))) with h | ⟨-, h⟩
      · rcases hcooldown with hcooldown | hcooldown
        · exact absurd h.1 (not_lt.mpr hcooldown)
        · exact absurd h.2 (not_lt.mpr hcooldown)
      · exact absurd h.1 (not_lt.mpr hlost)
  · -- a request not answered from the vault is held back by one of the two deadlines
    rw [← Bool.not_eq_true]
    intro hstart
    obtain ⟨hpending, hcooldown', hdeferral'⟩ := FailedRefresh.startsFetch_iff.mp hstart
    have later : ∀ {sample : Instant}, r.requestedAt < sample + Duration.fromSecs seconds →
        r.requestedAt < sample + Duration.fromSecs seconds' :=
      fun hlt => lt_of_lt_of_le hlt (Nat.add_le_add_left hdur _)
    rcases (quiet_iff hpending).mp hquiet with hholds | ⟨hdeferrable, hholds⟩
    · refine hno (.cooldown hpending hholds (not_lt.mp fun hrep => ?_))
      exact hcooldown' ⟨hrep, later hholds.2⟩
    · refine hno (.deferral hpending hdeferrable hholds (not_lt.mp fun hrep => ?_) ?_)
      · exact hdeferral' ⟨hdeferrable, hrep, later hholds.2⟩
      · by_contra hneither
        obtain ⟨hrep, hlt⟩ := not_or.mp hneither
        exact hcooldown' ⟨not_le.mp hrep, not_le.mp hlt⟩

/-! ### The largest interval

The network is down when a cold client first fetches; another call comes half a
minute later. -/

def outageRefresh : FailedRefresh where
  client := outageClient
  state := firstFetch
  c := 0
  selector := outageSelector
  up := outageUpstream
  unixNow := 1700000000
  error := .api .http
  toSample := 0
  toWrite := 0
  toRequest := Duration.fromSecs 30
  d := 1
  request := outageSelector
  refreshing := rfl
  fails := fetchVault_outage
  new := rfl

theorem outageRefresh_pending : outageRefresh.answered = false := rfl

theorem outageRefresh_holds : holdsAt outageRefresh.failedAt (.fromSecs 60) outageRefresh.requestedAt :=
  ⟨by decide, by decide⟩

theorem longer_interval_iff_hour : outageRefresh.startsFetch 60 = false ∧ outageRefresh.startsFetch 3600 = false := by
  have hquiet := (quiet_iff outageRefresh_pending).mpr (Or.inl outageRefresh_holds)
  refine ⟨hquiet, (longer_interval_iff outageRefresh 60 3600 (by decide)).mpr ?_ hquiet⟩
  intro hlost
  cases hlost with
  | cooldown _ _ hlost => exact absurd hlost (by decide)
  | deferral _ hdeferrable => cases hdeferrable

/-- A minute throttles the second call; the largest interval of the command line
lets it through. -/
theorem largest_interval_unthrottled : ¬ ∀ (r : FailedRefresh) (seconds seconds' : ℕ), seconds ≤ seconds' →
    seconds' < 2 ^ 64 → r.startsFetch seconds = false → r.startsFetch seconds' = false := by
  intro hmono
  have hquiet := (quiet_iff outageRefresh_pending).mpr (Or.inl outageRefresh_holds)
  have hlarge := hmono outageRefresh 60 (2 ^ 64 - 1) (by decide) (by decide) hquiet
  rcases (quiet_iff outageRefresh_pending).mp hlarge with h | ⟨h, -⟩
  · exact absurd h.1 (by decide)
  · cases h

end Bweso
