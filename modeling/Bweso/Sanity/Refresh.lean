import Bweso.Sanity.Cache

/-! What a run of the client says about its shared state: who holds
`refresh_lock`, which refresh completed last, what the two deadlines mean, and
on what grounds a call is about to read the cache. -/

namespace Bweso

/-- From the acquisition to the return of `ensure_fresh_cached_sync`. -/
def Phase.holdsLock : Phase → Bool
  | .locked _ | .cooldown _ | .fetching _ | .failed .. | .staleWait .. | .storeWait .. => true
  | _ => false

/-- Inside `fetch_vault`. -/
@[simp] def Phase.isFetching : Phase → Bool
  | .fetching _ => true
  | _ => false

namespace CachedVault

/-- One vault, whatever its refresh deadline. -/
def Same (v w : CachedVault) : Prop := v = { w with refreshRetryAfter := v.refreshRetryAfter }

theorem Same.refl (v : CachedVault) : v.Same v := rfl

theorem Same.fetchedAt {v w : CachedVault} (h : v.Same w) : v.fetchedAt = w.fetchedAt := by rw [h]

theorem Same.deferRefreshUntil {v w : CachedVault} (h : v.Same w) (t : Instant) :
    (v.deferRefreshUntil t).Same w := by
  rw [h]
  rfl

theorem isWithinStaleIfErrorAt_iff {v : CachedVault} {config : BitwardenCacheConfig} {now : Instant} :
    v.isWithinStaleIfErrorAt config now = true ↔
      0 < config.staleIfError ∧ now - v.fetchedAt < config.ttl.saturatingAdd config.staleIfError := by
  rw [isWithinStaleIfErrorAt, Bool.and_eq_true, decide_eq_true_iff, decide_eq_true_iff, Nat.pos_iff_ne_zero]
  rfl

/-- A vault that may be served past its refresh deadline might have been earlier. -/
theorem canDeferRefreshAt_earlier {v : CachedVault} {config : BitwardenCacheConfig} {now later : Instant}
    (hle : now ≤ later) (h : v.canDeferRefreshAt config later = true) : v.canDeferRefreshAt config now = true := by
  simp only [canDeferRefreshAt, Bool.and_eq_true, isWithinStaleIfErrorAt_iff, Option.any_eq_true,
    decide_eq_true_eq] at h ⊢
  obtain ⟨⟨hopt, hwithin⟩, t, ht, hlt⟩ := h
  refine ⟨⟨hopt, ?_⟩, t, ht, ?_⟩
  · lia
  · lia

/-- What freshness bounds: the age of the vault, and the token by its expiry. -/
theorem isFreshAt_iff {v : CachedVault} {ttl : Duration} {now : Instant} :
    v.isFreshAt ttl now = true ↔ 0 < ttl ∧ now - v.fetchedAt < ttl ∧
      ∀ expiresAt, v.expiresAt = some expiresAt → now + tokenExpiryRefreshSkew < expiresAt := by
  unfold isFreshAt Instant.durationSince
  by_cases hage : ttl = 0 ∨ ttl ≤ now - v.fetchedAt
  · rw [if_pos hage]
    simp only [Bool.false_eq_true, false_iff]
    intro h
    lia
  · rw [if_neg hage]
    cases hexp : v.expiresAt with
    | none =>
      simp only [reduceCtorEq, false_implies, implies_true, and_true, true_iff]
      lia
    | some expiresAt =>
      simp only [Instant.checkedSub, Option.some.injEq, forall_eq']
      by_cases hskew : tokenExpiryRefreshSkew ≤ expiresAt
      · rw [if_pos hskew, Option.any_some, decide_eq_true_eq]
        lia
      · rw [if_neg hskew]
        simp only [Option.any_none, Bool.false_eq_true, false_iff]
        lia

end CachedVault

theorem reuseCachedSync_eq_none {config : BitwardenCacheConfig} {cache : Option CachedVault} {now : Instant} :
    reuseCachedSync config cache now = none ↔ ∀ v, cache = some v →
      v.isFreshAt config.ttl now = false ∧ v.canDeferRefreshAt config now = false := by
  cases cache with
  | none => simp [reuseCachedSync]
  | some v =>
    simp only [reuseCachedSync, Option.some.injEq, forall_eq']
    cases v.isFreshAt config.ttl now <;> cases v.canDeferRefreshAt config now <;> simp

theorem reuseCachedSync_eq_some {config : BitwardenCacheConfig} {cache : Option CachedVault} {now : Instant}
    {r : Reuse} (h : reuseCachedSync config cache now = some r) : ∃ v, cache = some v ∧
      (v.isFreshAt config.ttl now = true ∨ v.canDeferRefreshAt config now = true) := by
  cases cache with
  | none => simp [reuseCachedSync] at h
  | some v =>
    refine ⟨v, rfl, ?_⟩
    simp only [reuseCachedSync] at h
    cases hf : v.isFreshAt config.ttl now with
    | true => exact Or.inl rfl
    | false =>
      cases hd : v.canDeferRefreshAt config now with
      | true => exact Or.inr rfl
      | false => simp [hf, hd] at h

namespace Client

variable (client : Client)

abbrev Trace := List (ClientState × ClientEvent)

/-! ### The lock -/

/-- The lock is with the call that stands inside it. -/
def Held (s : ClientState) : Prop := ∀ c, (s.calls c).holdsLock = true ↔ s.refreshLock = some c

section
variable {s t : ClientState} {c : CallId} {p : Phase}

theorem Held.unique (h : Held s) {d : CallId} (hc : (s.calls c).holdsLock = true)
    (hd : (s.calls d).holdsLock = true) : c = d := by
  have hlock := (h c).mp hc
  rw [(h d).mp hd] at hlock
  exact (Option.some.inj hlock).symm

theorem Held.stay (h : Held s) (hcalls : t.calls = Function.update s.calls c p)
    (hlock : t.refreshLock = s.refreshLock) (hp : p.holdsLock = (s.calls c).holdsLock) : Held t := by
  intro d
  rw [hcalls, hlock, ← h d]
  by_cases hd : d = c
  · rw [hd, Function.update_self, hp]
  · rw [Function.update_of_ne hd]

theorem Held.take (h : Held s) (hcalls : t.calls = Function.update s.calls c p)
    (hfree : s.refreshLock = none) (hlock : t.refreshLock = some c) (hp : p.holdsLock = true) : Held t := by
  intro d
  rw [hcalls, hlock]
  by_cases hd : d = c
  · simp [hd, hp]
  · rw [Function.update_of_ne hd, h d, hfree]
    simp [Ne.symm hd]

theorem Held.release (h : Held s) (hcalls : t.calls = Function.update s.calls c p)
    (hc : (s.calls c).holdsLock = true) (hlock : t.refreshLock = none) (hp : p.holdsLock = false) : Held t := by
  intro d
  rw [hcalls, hlock]
  by_cases hd : d = c
  · simp [hd, hp]
  · rw [Function.update_of_ne hd]
    simp only [reduceCtorEq, iff_false]
    intro hdl
    exact hd (h.unique hdl hc)

end

variable {client}

theorem Held.step {s s' : ClientState} {e : ClientEvent} (h : client.Step s e s') (hs : Held s) : Held s' := by
  cases h with
  | tick => exact hs
  | acquire hc hfree => exact hs.take rfl hfree rfl rfl
  | stale hc hstale =>
    obtain ⟨v, -, -, rfl⟩ := (serveStaleAfterError_eq_some client).mp hstale
    exact hs.release rfl (by simp [hc, Phase.holdsLock]) rfl rfl
  | @cancel c hc =>
    by_cases hlock : s.refreshLock = some c
    · exact hs.release (s.dropCall_calls c) ((hs c).mpr hlock) (by simp [s.dropCall_refreshLock, hlock]) rfl
    · have hout : (s.calls c).holdsLock = false := Bool.eq_false_of_not_eq_true fun h => hlock ((hs c).mp h)
      exact hs.stay (s.dropCall_calls c) (by simp [s.dropCall_refreshLock, hlock]) (by rw [hout]; rfl)
  | _ hc =>
    -- a move outside the lock, inside it, or out of it
    first
    | exact hs.stay rfl rfl (by simp [hc, Phase.holdsLock])
    | exact hs.release rfl (by simp [hc, Phase.holdsLock]) rfl rfl

theorem held_init : Held ClientState.init := by
  intro c
  simp [ClientState.init, Phase.holdsLock]

theorem runs_held {tr : Trace} {s s' : ClientState} (h : Run client.step s tr s') (hs : Held s) : Held s' :=
  h.invariant hs fun _ _ _ hp hstep => Held.step (step_cases hstep) hp

/-! ### Completed refreshes -/

/-- A `fetch_vault` that returned: the clock sample taken then, and its outcome. -/
structure Attempt where
  endedAt : Instant
  outcome : Except BitwardenClientError (BitwardenSession × SyncResponse)

variable (client) in
def attempt : ClientState × ClientEvent → Option Attempt
  | (s, .fetchReturns _ up _) => some ⟨s.now, fetchVault client.config up⟩
  | _ => none

variable (client) in
/-- The refresh that completed last. -/
def lastAttempt (tr : Trace) : Option Attempt := tr.reverse.findSome? client.attempt

theorem lastAttempt_append (tr tr' : Trace) :
    client.lastAttempt (tr ++ tr') = (client.lastAttempt tr').or (client.lastAttempt tr) := by
  unfold lastAttempt
  rw [List.reverse_append, List.findSome?_append]

theorem lastAttempt_snoc (tr : Trace) (x : ClientState × ClientEvent) :
    client.lastAttempt (tr ++ [x]) = (client.attempt x).or (client.lastAttempt tr) := by
  rw [lastAttempt_append, lastAttempt, List.reverse_singleton, List.findSome?_singleton]

theorem lastAttempt_quiet {tr : Trace} {x : ClientState × ClientEvent} (h : client.attempt x = none) :
    client.lastAttempt (tr ++ [x]) = client.lastAttempt tr := by
  rw [lastAttempt_snoc, h, Option.none_or]

theorem lastAttempt_returned {tr : Trace} {s : ClientState} {c : CallId} {up : Upstream} {unixNow : ℕ} :
    client.lastAttempt (tr ++ [(s, .fetchReturns c up unixNow)]) =
      some ⟨s.now, fetchVault client.config up⟩ := by
  rw [lastAttempt_snoc]
  rfl

variable (client) in
/-- The deadline a completed refresh leaves: none after a success, and none
where the sum is not representable. -/
def deadline : Option Attempt → Option Instant
  | some ⟨endedAt, .error _⟩ => endedAt.checkedAdd client.cache.refreshRetryInterval
  | _ => none

/-! ### Effects on the shared state -/

variable (client) in
/-- What a step does to the cache, the cooldown and the record of refreshes. -/
inductive Effect (s : ClientState) : ClientEvent → ClientState → Prop
  | quiet {e : ClientEvent} {s' : ClientState} (hcache : s'.cache = s.cache)
      (hretry : s'.retryAfter = s.retryAfter) (hattempt : client.attempt (s, e) = none) : Effect s e s'
  | returned {s' : ClientState} {c : CallId} {selector : BitwardenSelector} {up : Upstream} {unixNow : ℕ}
      (hc : s.calls c = .fetching selector) (hcache : s'.cache = s.cache)
      (hretry : s'.retryAfter = client.deadline (some ⟨s.now, fetchVault client.config up⟩)) :
      Effect s (.fetchReturns c up unixNow) s'
  | deferred {s' : ClientState} {c : CallId} {selector : BitwardenSelector} {e : BitwardenClientError}
      {sampled : Instant} {v : CachedVault} (hc : s.calls c = .staleWait selector e sampled)
      (hv : s.cache = some v) (hwithin : v.isWithinStaleIfErrorAt client.cache sampled = true)
      (hcache : s'.cache = some (v.deferRefreshUntil
        ((sampled.checkedAdd client.cache.refreshRetryInterval).getD sampled)))
      (hretry : s'.retryAfter = s.retryAfter) : Effect s (.serveStale c) s'
  | stored {s' : ClientState} {c : CallId} {selector : BitwardenSelector} {v : CachedVault}
      (hc : s.calls c = .storeWait selector v) (hcache : s'.cache = some v)
      (hretry : s'.retryAfter = s.retryAfter) : Effect s (.storeVault c) s'

theorem step_effect {s s' : ClientState} {e : ClientEvent} (h : client.Step s e s') : client.Effect s e s' := by
  cases h with
  | fetched hc hf => exact .returned hc rfl (by rw [hf]; rfl)
  | fetchFailed hc hf => exact .returned hc rfl (by rw [hf]; rfl)
  | stale hc hstale =>
    obtain ⟨v, hv, hwithin, rfl⟩ := (serveStaleAfterError_eq_some client).mp hstale
    exact .deferred hc hv hwithin rfl rfl
  | store hc => exact .stored hc rfl rfl
  | cancel hc => exact .quiet (ClientState.dropCall_cache _ _) (ClientState.dropCall_retryAfter _ _) rfl
  | _ => exact .quiet rfl rfl rfl

/-- The clock never runs back. -/
theorem step_now {s s' : ClientState} {e : ClientEvent} (h : client.Step s e s') : s.now ≤ s'.now := by
  cases h with
  | tick => exact Nat.le_add_right _ _
  | stale hc hstale =>
    obtain ⟨v, -, -, rfl⟩ := (serveStaleAfterError_eq_some client).mp hstale
    exact le_refl s.now
  | cancel hc => rw [ClientState.dropCall_now]
  | _ => exact le_refl s.now

/-- While one call is inside the lock, the others leave the shared state alone. -/
theorem step_guarded {s s' : ClientState} {e : ClientEvent} (h : client.Step s e s') (hs : Held s) {c : CallId}
    (hc : (s.calls c).holdsLock = true) (he : e.call ≠ some c) :
    s'.cache = s.cache ∧ s'.retryAfter = s.retryAfter ∧ client.attempt (s, e) = none := by
  have other : ∀ {d : CallId}, (s.calls d).holdsLock = true → e.call = some d → False := fun hd hed =>
    he (by rw [hed, hs.unique hd hc])
  cases step_effect h with
  | quiet hcache hretry hattempt => exact ⟨hcache, hretry, hattempt⟩
  | returned hd => exact (other (by rw [hd]; rfl) rfl).elim
  | deferred hd => exact (other (by rw [hd]; rfl) rfl).elim
  | stored hd => exact (other (by rw [hd]; rfl) rfl).elim

/-! ### Grounds for serving a vault -/

/-- A transport error, or one of the statuses that come with a recovery. -/
def Transient (e : BitwardenClientError) : Prop :=
  e = .api .http ∨ ∃ endpoint status, e = .api (.httpStatus endpoint status) ∧
    (status = 408 ∨ status = 429 ∨ 500 ≤ status ∧ status ≤ 599)

theorem permitsStaleCache_iff {e : BitwardenClientError} : e.permitsStaleCache = true ↔ Transient e := by
  unfold Transient
  cases e with
  | api e =>
    cases e <;> simp [BitwardenClientError.permitsStaleCache, BitwardenApiError.permitsStaleCache, or_assoc]
  | _ => simp [BitwardenClientError.permitsStaleCache]

variable (client)

/-- The call `c` fetched the vault `v` itself. -/
def FetchedBy (tr : Trace) (c : CallId) (v : CachedVault) : Prop :=
  ∃ q up unixNow session sync, (q, .fetchReturns c up unixNow) ∈ tr ∧
    fetchVault client.config up = .ok (session, sync) ∧ v = CachedVault.new session sync q.now

/-- Within the time to live, and the token away from its expiry, if that is
representable. -/
structure FreshSample (v : CachedVault) (now : Instant) : Prop where
  enabled : 0 < client.cache.ttl
  fetched : v.fetchedAt ≤ now
  age : now - v.fetchedAt < client.cache.ttl
  token : (v.session.expiresIn.bind fun seconds => v.fetchedAt.checkedAdd (Duration.fromSecs seconds)) = none ∨
    ∃ seconds, v.session.expiresIn = some seconds ∧
      now + tokenExpiryRefreshSkew < v.fetchedAt + Duration.fromSecs seconds

/-- Within the opted-in window, after a refresh that failed transiently. -/
structure StaleSample (tr : Trace) (v : CachedVault) (now : Instant) : Prop where
  enabled : 0 < client.cache.staleIfError
  fetched : v.fetchedAt ≤ now
  age : now - v.fetchedAt < client.cache.ttl.saturatingAdd client.cache.staleIfError
  failed : ∃ endedAt e, client.lastAttempt tr = some ⟨endedAt, .error e⟩ ∧ Transient e

end Client

/-- The call for which an event samples the clock and looks at the cache. -/
def ClientEvent.samples : ClientEvent → Option CallId
  | .checkCache c | .recheckCache c | .sampleStale c => some c
  | _ => none

namespace Client

variable (client : Client)

/-- Why the call `c`, at its event `e` in the state `q`, may return with the
vault `v`. -/
inductive Grounds (before : Trace) (q : ClientState) (c : CallId) : ClientEvent → CachedVault → Prop
  | fetched {selector : BitwardenSelector} {v : CachedVault} (hc : q.calls c = .storeWait selector v)
      (h : client.FetchedBy before c v) : Grounds before q c (.storeVault c) v
  | fresh {e : ClientEvent} {v : CachedVault} (he : e.samples = some c) (hv : q.cache = some v)
      (h : client.FreshSample v q.now) : Grounds before q c e v
  | stale {e : ClientEvent} {v : CachedVault} (he : e.samples = some c) (hv : q.cache = some v)
      (h : client.StaleSample before v q.now) : Grounds before q c e v

/-- `v` is the vault `v₀`, or one that was stored after it and fetched no
earlier. -/
def Follows (after : Trace) (v₀ v : CachedVault) : Prop :=
  v.Same v₀ ∨ v₀.fetchedAt ≤ v.fetchedAt ∧ ∃ q d selector w, (q, .storeVault d) ∈ after ∧
    q.calls d = .storeWait selector w ∧ v.Same w

/-- The cached vault is one that `c` has grounds for, or a later one. -/
def Serves (tr : Trace) (s : ClientState) (c : CallId) : Prop :=
  ∃ before q e after v₀ v, tr = before ++ (q, e) :: after ∧ client.Grounds before q c e v₀ ∧
    s.cache = some v ∧ Follows after v₀ v

/-! ### What the trace says of each call -/

/-- The cached vault will not be served past its refresh deadline any more. -/
def Spent (s : ClientState) : Prop :=
  ∀ v, s.cache = some v → ∀ n, s.now ≤ n → v.canDeferRefreshAt client.cache n = false

/-- The second check, under the lock, found nothing to reuse in the cache. -/
def Missed (tr : Trace) (s : ClientState) (c : CallId) : Prop :=
  ∃ q, (q, .recheckCache c) ∈ tr ∧ q.refreshLock = some c ∧ q.cache = s.cache ∧
    reuseCachedSync client.cache q.cache q.now = none

/-- The call sampled the clock at `sampled` after its refresh failed with `e`,
and the cache has not changed since. -/
def SampledAfter (tr : Trace) (s : ClientState) (c : CallId) (e : BitwardenClientError) (sampled : Instant) :
    Prop :=
  Transient e ∧ (∃ endedAt, client.lastAttempt tr = some ⟨endedAt, .error e⟩) ∧
    ∃ before q after, tr = before ++ (q, .sampleStale c) :: after ∧ q.now = sampled ∧ q.cache = s.cache ∧
      client.lastAttempt before = client.lastAttempt tr ∧ ∀ v, q.cache = some v → v.fetchedAt ≤ sampled

def Underway (tr : Trace) (s : ClientState) (c : CallId) : Phase → Prop
  | .cooldown _ => client.Spent s ∧ client.Missed tr s c
  | .fetching _ => client.Spent s
  | .failed _ e => client.Spent s ∧ ∃ endedAt, client.lastAttempt tr = some ⟨endedAt, .error e⟩
  | .staleWait _ e sampled => client.Spent s ∧ client.SampledAfter tr s c e sampled
  | .storeWait _ v => client.Spent s ∧ client.FetchedBy tr c v ∧ v.fetchedAt ≤ s.now ∧
      ∀ w, s.cache = some w → w.fetchedAt ≤ v.fetchedAt
  | .reading _ => client.Serves tr s c
  | _ => True

/-- The shared state is what the trace makes it. -/
structure Consistent (tr : Trace) (s : ClientState) : Prop where
  held : Held s
  cooldown : s.retryAfter = client.deadline (client.lastAttempt tr)
  cached : ∀ v, s.cache = some v → v.fetchedAt ≤ s.now ∧ ∃ c w, client.FetchedBy tr c w ∧ v.Same w
  /-- a vault is served past its refresh deadline only after a transient failure -/
  deferred : ∀ v, s.cache = some v → ∀ n, s.now ≤ n → v.canDeferRefreshAt client.cache n = true →
    ∃ endedAt e, client.lastAttempt tr = some ⟨endedAt, .error e⟩ ∧ Transient e
  calls : ∀ c, client.Underway tr s c (s.calls c)

variable {client} {tr : Trace} {s s' : ClientState} {e : ClientEvent} {c : CallId}

/-! ### Other calls' steps -/

theorem Spent.keep (h : client.Spent s) (hcache : s'.cache = s.cache) (hnow : s.now ≤ s'.now) :
    client.Spent s' := by
  intro v hv n hn
  exact h v (by rw [← hcache, hv]) n (hnow.trans hn)

theorem FetchedBy.mono {tr' : Trace} {v : CachedVault} (hsub : tr ⊆ tr') (h : client.FetchedBy tr c v) :
    client.FetchedBy tr' c v := by
  obtain ⟨q, up, unixNow, session, sync, hq, hf, hv⟩ := h
  exact ⟨q, up, unixNow, session, sync, hsub hq, hf, hv⟩

theorem Missed.keep (h : client.Missed tr s c) (hcache : s'.cache = s.cache) (x : ClientState × ClientEvent) :
    client.Missed (tr ++ [x]) s' c := by
  obtain ⟨q, hq, hlock, hc, hr⟩ := h
  exact ⟨q, List.mem_append_left _ hq, hlock, hc.trans hcache.symm, hr⟩

theorem SampledAfter.keep {error : BitwardenClientError} {sampled : Instant}
    (h : client.SampledAfter tr s c error sampled) (hcache : s'.cache = s.cache)
    (hlast : client.lastAttempt (tr ++ [(s, e)]) = client.lastAttempt tr) :
    client.SampledAfter (tr ++ [(s, e)]) s' c error sampled := by
  obtain ⟨ht, hfailed, before, q, after, htr, hq, hc, hb, hage⟩ := h
  refine ⟨ht, by rw [hlast]; exact hfailed, before, q, after ++ [(s, e)], ?_, hq, hc.trans hcache.symm, ?_, hage⟩
  · rw [htr, List.append_assoc, List.cons_append]
  · rw [hlast, hb]

/-- A vault that follows another keeps following it, or is replaced by a later
one. -/
theorem Follows.step {after : Trace} {v₀ v : CachedVault} (h : client.Step s e s')
    (hs : client.Consistent tr s) (hv : s.cache = some v) (hf : Follows after v₀ v) :
    ∃ v', s'.cache = some v' ∧ Follows (after ++ [(s, e)]) v₀ v' := by
  have kept : ∀ {v'}, v'.Same v → Follows (after ++ [(s, e)]) v₀ v' := by
    intro v' hsame
    rcases hf with hf | ⟨hle, q, d, selector, w, hq, hd, hw⟩
    · exact Or.inl (by rw [CachedVault.Same, hsame, hf])
    · exact Or.inr ⟨by rw [hsame.fetchedAt]; exact hle, q, d, selector, w, List.mem_append_left _ hq, hd,
        by rw [CachedVault.Same, hsame, hw]⟩
  cases step_effect h with
  | quiet hcache => exact ⟨v, hcache.trans hv, kept (.refl v)⟩
  | returned _ hcache => exact ⟨v, hcache.trans hv, kept (.refl v)⟩
  | deferred _ hv' _ hcache =>
    obtain rfl := Option.some.inj (hv.symm.trans hv')
    exact ⟨_, hcache, kept ((CachedVault.Same.refl v).deferRefreshUntil _)⟩
  | @stored _ d selector w hd hcache =>
    have hstore := hs.calls d
    rw [hd] at hstore
    have hle : v₀.fetchedAt ≤ v.fetchedAt := by
      rcases hf with hf | ⟨hle, -⟩
      · rw [hf.fetchedAt]
      · exact hle
    exact ⟨w, hcache, Or.inr ⟨hle.trans (hstore.2.2.2 v hv), s, d, selector, w,
      List.mem_append_right _ List.mem_cons_self, hd, .refl w⟩⟩

theorem Serves.step (h : client.Step s e s') (hs : client.Consistent tr s) (hserves : client.Serves tr s c) :
    client.Serves (tr ++ [(s, e)]) s' c := by
  obtain ⟨before, q, e₀, after, v₀, v, htr, hg, hv, hf⟩ := hserves
  obtain ⟨v', hv', hf'⟩ := hf.step h hs hv
  exact ⟨before, q, e₀, after ++ [(s, e)], v₀, v', by rw [htr, List.append_assoc, List.cons_append], hg, hv', hf'⟩

theorem Underway.frame {p : Phase} (h : client.Step s e s') (hs : client.Consistent tr s) (hp : s.calls c = p)
    (he : e.call ≠ some c) (hu : client.Underway tr s c p) : client.Underway (tr ++ [(s, e)]) s' c p := by
  by_cases hlock : p.holdsLock = true
  · obtain ⟨hcache, -, hattempt⟩ := step_guarded h hs.held (by rw [hp]; exact hlock) he
    have hlast : client.lastAttempt (tr ++ [(s, e)]) = client.lastAttempt tr := lastAttempt_quiet hattempt
    have hnow := step_now h
    cases p with
    | cooldown _ => exact ⟨hu.1.keep hcache hnow, hu.2.keep hcache _⟩
    | fetching _ => exact Spent.keep hu hcache hnow
    | failed _ error => exact ⟨hu.1.keep hcache hnow, by rw [hlast]; exact hu.2⟩
    | staleWait _ error sampled => exact ⟨hu.1.keep hcache hnow, hu.2.keep hcache hlast⟩
    | storeWait _ v =>
      exact ⟨hu.1.keep hcache hnow, hu.2.1.mono (List.subset_append_left _ _), hu.2.2.1.trans hnow,
        by rw [hcache]; exact hu.2.2.2⟩
    | locked _ => trivial
    | _ => simp [Phase.holdsLock] at hlock
  · cases p with
    | reading _ => exact Serves.step h hs hu
    | idle => trivial
    | ensure _ => trivial
    | lockWait _ => trivial
    | done _ => trivial
    | cancelled => trivial
    | _ => simp [Phase.holdsLock] at hlock

/-! ### A call's own steps -/

theorem Consistent.expiresAt {v : CachedVault} (hs : client.Consistent tr s) (hv : s.cache = some v) :
    v.expiresAt = v.session.expiresIn.bind fun seconds =>
      v.fetchedAt.checkedAdd (Duration.fromSecs seconds) := by
  obtain ⟨-, d, w, ⟨q, up, unixNow, session, sync, -, -, rfl⟩, hsame⟩ := hs.cached v hv
  rw [hsame]
  rfl

theorem Consistent.freshSample {v : CachedVault} (hs : client.Consistent tr s) (hv : s.cache = some v)
    (h : v.isFreshAt client.cache.ttl s.now = true) : client.FreshSample v s.now := by
  obtain ⟨henabled, hage, htoken⟩ := CachedVault.isFreshAt_iff.mp h
  refine ⟨henabled, (hs.cached v hv).1, hage, ?_⟩
  rw [hs.expiresAt hv] at htoken
  cases hexp : v.session.expiresIn with
  | none => exact Or.inl rfl
  | some seconds =>
    rw [hexp, Option.bind_some] at htoken
    by_cases hrep : (v.fetchedAt + Duration.fromSecs seconds) / nanosPerSec < 2 ^ 63
    · exact Or.inr ⟨seconds, rfl, htoken _ (by rw [Instant.checkedAdd, if_pos hrep])⟩
    · exact Or.inl (by rw [Option.bind_some, Instant.checkedAdd, if_neg hrep])

/-- What a successful check of the cache gives its call. -/
theorem Consistent.grounds {r : Reuse} (hs : client.Consistent tr s) (he : e.samples = some c)
    (hr : reuseCachedSync client.cache s.cache s.now = some r) (hcache : s'.cache = s.cache) :
    client.Serves (tr ++ [(s, e)]) s' c := by
  obtain ⟨v, hv, h⟩ := reuseCachedSync_eq_some hr
  refine ⟨tr, s, e, [], v, v, rfl, ?_, hcache.trans hv, Or.inl (.refl v)⟩
  rcases h with hfresh | hdefer
  · exact .fresh he hv (hs.freshSample hv hfresh)
  · have hwithin : v.isWithinStaleIfErrorAt client.cache s.now = true := by
      simp only [CachedVault.canDeferRefreshAt, Bool.and_eq_true] at hdefer
      exact hdefer.1
    obtain ⟨henabled, hage⟩ := CachedVault.isWithinStaleIfErrorAt_iff.mp hwithin
    exact .stale he hv ⟨henabled, (hs.cached v hv).1, hage, hs.deferred v hv s.now le_rfl hdefer⟩

/-- A failed check of the cache rules out every later deferral. -/
theorem spent_of_miss (hr : reuseCachedSync client.cache s.cache s.now = none) : client.Spent s := by
  intro v hv n hn
  apply Bool.eq_false_of_not_eq_true
  intro hdefer
  have hnow := CachedVault.canDeferRefreshAt_earlier hn hdefer
  rw [(reuseCachedSync_eq_none.mp hr v hv).2] at hnow
  simp at hnow

theorem Underway.own (h : client.Step s e s') (hs : client.Consistent tr s) (he : e.call = some c) :
    client.Underway (tr ++ [(s, e)]) s' c (s'.calls c) := by
  have hu := hs.calls c
  have hself : (s, e) ∈ tr ++ [(s, e)] := List.mem_append_right _ List.mem_cons_self
  cases h
  case tick => simp [ClientEvent.call] at he
  all_goals
    obtain rfl := Option.some.inj he
    simp only [ClientState.unlock_calls, ClientState.dropCall_calls, ClientState.setPhase_calls_self]
  case hit hc hr => exact hs.grounds rfl hr rfl
  case rehit hc hr => exact hs.grounds rfl hr rfl
  case remiss hc hr => exact ⟨spent_of_miss hr, s, hself, (hs.held _).mp (by rw [hc]; rfl), rfl, hr⟩
  case startFetch hc _ =>
    rw [hc] at hu
    exact hu.1
  case fetched hc hf =>
    rw [hc] at hu
    exact ⟨hu, ⟨s, _, _, _, _, hself, hf, rfl⟩, le_refl s.now, fun w hw => (hs.cached w hw).1⟩
  case fetchFailed hc hf =>
    rw [hc] at hu
    exact ⟨hu, s.now, by rw [lastAttempt_returned, hf]⟩
  case sample hc hp =>
    rw [hc] at hu
    obtain ⟨hspent, endedAt, hfailed⟩ := hu
    exact ⟨hspent, permitsStaleCache_iff.mp hp, ⟨endedAt, (lastAttempt_quiet rfl).trans hfailed⟩, tr, s, [], rfl,
      rfl, rfl, (lastAttempt_quiet rfl).symm, fun v hv => (hs.cached v hv).1⟩
  case stale hc hstale =>
    -- nobody else wrote the cache since the sample: the lock was held
    rw [hc] at hu
    obtain ⟨-, ht, ⟨endedAt, hfailed⟩, before, q, after, htr, rfl, hcache, hb, hage⟩ := hu
    obtain ⟨v, hv, hwithin, rfl⟩ := (serveStaleAfterError_eq_some client).mp hstale
    obtain ⟨henabled, hbound⟩ := CachedVault.isWithinStaleIfErrorAt_iff.mp hwithin
    have hqv : q.cache = some v := hcache.trans hv
    refine ⟨before, q, _, after ++ [(s, _)], v, _, by rw [htr, List.append_assoc, List.cons_append],
      .stale rfl hqv ⟨henabled, hage v hqv, hbound, endedAt, _, by rw [hb]; exact hfailed, ht⟩, rfl,
      Or.inl ((CachedVault.Same.refl v).deferRefreshUntil _)⟩
  case store hc =>
    rw [hc] at hu
    exact ⟨tr, s, _, [], _, _, rfl, .fetched hc hu.2.1, rfl, Or.inl (.refl _)⟩
  all_goals trivial

/-! ### Every run is consistent -/

theorem consistent_init : client.Consistent [] ClientState.init where
  held := held_init
  cooldown := rfl
  cached v hv := by simp [ClientState.init] at hv
  deferred v hv := by simp [ClientState.init] at hv
  calls _ := trivial

theorem Consistent.step_cooldown (h : client.Step s e s') (hs : client.Consistent tr s) :
    s'.retryAfter = client.deadline (client.lastAttempt (tr ++ [(s, e)])) := by
  cases step_effect h with
  | quiet _ hretry hattempt => rw [hretry, lastAttempt_quiet hattempt, hs.cooldown]
  | returned _ _ hretry => rw [hretry, lastAttempt_returned]
  | deferred _ _ _ _ hretry => rw [hretry, lastAttempt_quiet rfl, hs.cooldown]
  | stored _ _ hretry => rw [hretry, lastAttempt_quiet rfl, hs.cooldown]

theorem Consistent.step_cached (h : client.Step s e s') (hs : client.Consistent tr s) :
    ∀ v, s'.cache = some v → v.fetchedAt ≤ s'.now ∧ ∃ c w, client.FetchedBy (tr ++ [(s, e)]) c w ∧ v.Same w := by
  have hnow := step_now h
  have kept : ∀ v, s.cache = some v → v.fetchedAt ≤ s'.now ∧
      ∃ c w, client.FetchedBy (tr ++ [(s, e)]) c w ∧ v.Same w := by
    intro v hv
    obtain ⟨hle, c, w, hw, hsame⟩ := hs.cached v hv
    exact ⟨hle.trans hnow, c, w, hw.mono (List.subset_append_left _ _), hsame⟩
  intro v' hv'
  cases step_effect h with
  | quiet hcache => exact kept v' (hcache.symm.trans hv')
  | returned _ hcache => exact kept v' (hcache.symm.trans hv')
  | deferred _ hv _ hcache =>
    rw [hcache] at hv'
    obtain rfl := Option.some.inj hv'
    obtain ⟨hle, c, w, hw, hsame⟩ := kept _ hv
    exact ⟨hle, c, w, hw, hsame.deferRefreshUntil _⟩
  | @stored _ d _ _ hd hcache =>
    obtain rfl := Option.some.inj (hcache.symm.trans hv')
    have hu := hs.calls d
    rw [hd] at hu
    exact ⟨hu.2.2.1.trans hnow, d, _, hu.2.1.mono (List.subset_append_left _ _), .refl _⟩

theorem Consistent.step_deferred (h : client.Step s e s') (hs : client.Consistent tr s) :
    ∀ v, s'.cache = some v → ∀ n, s'.now ≤ n → v.canDeferRefreshAt client.cache n = true →
      ∃ endedAt error, client.lastAttempt (tr ++ [(s, e)]) = some ⟨endedAt, .error error⟩ ∧ Transient error := by
  have hnow := step_now h
  intro v' hv' n hn hdefer
  cases step_effect h with
  | quiet hcache _ hattempt =>
    rw [lastAttempt_quiet hattempt]
    exact hs.deferred v' (hcache.symm.trans hv') n (hnow.trans hn) hdefer
  | @returned _ d _ _ _ hd hcache =>
    -- the vault was past deferring before the fetch began
    have hu := hs.calls d
    rw [hd] at hu
    rw [hu v' (hcache.symm.trans hv') n (hnow.trans hn)] at hdefer
    simp at hdefer
  | @deferred _ d _ error _ _ hd =>
    have hu := hs.calls d
    rw [hd] at hu
    obtain ⟨-, ht, ⟨endedAt, hfailed⟩, -⟩ := hu
    rw [lastAttempt_quiet rfl]
    exact ⟨endedAt, error, hfailed, ht⟩
  | @stored _ d _ _ hd hcache =>
    obtain rfl := Option.some.inj (hcache.symm.trans hv')
    have hu := hs.calls d
    rw [hd] at hu
    obtain ⟨-, ⟨q, up, unixNow, session, sync, -, -, rfl⟩, -⟩ := hu
    simp [CachedVault.canDeferRefreshAt, CachedVault.new] at hdefer

theorem Consistent.step (h : client.Step s e s') (hs : client.Consistent tr s) :
    client.Consistent (tr ++ [(s, e)]) s' where
  held := hs.held.step h
  cooldown := hs.step_cooldown h
  cached := hs.step_cached h
  deferred := hs.step_deferred h
  calls c := by
    by_cases he : e.call = some c
    · exact Underway.own h hs he
    · rw [step_frame h he]
      exact Underway.frame h hs rfl he (hs.calls c)

theorem runs_consistent (h : client.Runs tr s) : client.Consistent tr s := by
  induction h with
  | nil => exact consistent_init
  | snoc _ hstep ih => exact ih.step (step_cases hstep)

/-- A call that finds nothing to reuse, up to its fetch. -/
def refreshEvents (c : CallId) (selector : BitwardenSelector) : List ClientEvent :=
  [.begin c selector, .checkCache c, .acquireLock c, .recheckCache c, .checkCooldown c]

theorem step_fetchReturns {selector : BitwardenSelector} {up : Upstream} {unixNow : ℕ}
    {outcome : Except BitwardenClientError (BitwardenSession × SyncResponse)} (hc : s.calls c = .fetching selector)
    (hf : fetchVault client.config up = outcome) :
    client.step s (.fetchReturns c up unixNow) = some (client.afterFetch s c selector unixNow outcome) := by
  simp only [step, hc, hf]

end Client

end Bweso
