import Bweso.Sanity.Api
import Bweso.Spec.Cache

/-! The transitions of the client, written out once: what each event needs and
what it leaves behind. Every invariant over runs is proved from these. -/

namespace Bweso

namespace ClientState

variable (s : ClientState) (c : CallId) (p : Phase)

@[simp] theorem setPhase_cache : (s.setPhase c p).cache = s.cache := rfl
@[simp] theorem setPhase_refreshLock : (s.setPhase c p).refreshLock = s.refreshLock := rfl
@[simp] theorem setPhase_retryAfter : (s.setPhase c p).retryAfter = s.retryAfter := rfl
@[simp] theorem setPhase_metrics : (s.setPhase c p).metrics = s.metrics := rfl
@[simp] theorem setPhase_now : (s.setPhase c p).now = s.now := rfl

@[simp] theorem setPhase_calls_self : (s.setPhase c p).calls c = p := by simp [setPhase]

theorem setPhase_calls_ne {d : CallId} (h : d ≠ c) : (s.setPhase c p).calls d = s.calls d := by
  simp [setPhase, h]

@[simp] theorem unlock_cache : s.unlock.cache = s.cache := rfl
@[simp] theorem unlock_refreshLock : s.unlock.refreshLock = none := rfl
@[simp] theorem unlock_retryAfter : s.unlock.retryAfter = s.retryAfter := rfl
@[simp] theorem unlock_metrics : s.unlock.metrics = s.metrics := rfl
@[simp] theorem unlock_now : s.unlock.now = s.now := rfl
@[simp] theorem unlock_calls : s.unlock.calls = s.calls := rfl

theorem dropCall_eq : s.dropCall c = { s.setPhase c .cancelled with
    refreshLock := if s.refreshLock = some c then none else s.refreshLock } := by
  unfold dropCall
  by_cases h : s.refreshLock = some c
  · simp [h, unlock, setPhase]
  · simp [h, setPhase]

@[simp] theorem dropCall_cache : (s.dropCall c).cache = s.cache := by rw [dropCall_eq]; rfl
@[simp] theorem dropCall_retryAfter : (s.dropCall c).retryAfter = s.retryAfter := by rw [dropCall_eq]; rfl
@[simp] theorem dropCall_metrics : (s.dropCall c).metrics = s.metrics := by rw [dropCall_eq]; rfl
@[simp] theorem dropCall_now : (s.dropCall c).now = s.now := by rw [dropCall_eq]; rfl
@[simp] theorem dropCall_calls : (s.dropCall c).calls = (s.setPhase c .cancelled).calls := by
  rw [dropCall_eq]
theorem dropCall_refreshLock :
    (s.dropCall c).refreshLock = if s.refreshLock = some c then none else s.refreshLock := by
  rw [dropCall_eq]

end ClientState

/-- The call an event belongs to. -/
def ClientEvent.call : ClientEvent → Option CallId
  | .tick _ => none
  | .begin c _ | .checkCache c | .acquireLock c | .recheckCache c | .checkCooldown c
  | .fetchReturns c _ _ | .sampleStale c | .serveStale c | .storeVault c | .readCache c
  | .cancel c => some c

namespace Client

variable (client : Client)

/-- The stale cache is served from the vault at hand, put off and counted. -/
theorem serveStaleAfterError_eq_some {s s₁ : ClientState} {sampled : Instant} :
    client.serveStaleAfterError s sampled = some s₁ ↔
      ∃ v, s.cache = some v ∧ v.isWithinStaleIfErrorAt client.cache sampled = true ∧
        s₁ = { s with
          cache := some (v.deferRefreshUntil
            ((sampled.checkedAdd client.cache.refreshRetryInterval).getD sampled))
          metrics := { s.metrics with staleServes := s.metrics.staleServes + 1 } } := by
  unfold serveStaleAfterError
  cases hc : s.cache with
  | none => simp
  | some v =>
    by_cases hw : v.isWithinStaleIfErrorAt client.cache sampled = true
    · simp only [hw, if_true, Option.some.injEq]
      refine ⟨fun h => ⟨v, rfl, hw, h.symm⟩, fun ⟨_, hv, _, h⟩ => ?_⟩
      rw [h, ← hv]
    · simp [hw]

inductive Step : ClientState → ClientEvent → ClientState → Prop
  | tick {s : ClientState} {elapsed : Duration} :
      Step s (.tick elapsed) { s with now := s.now + elapsed }
  | begin {s : ClientState} {c : CallId} {selector : BitwardenSelector} (h : s.calls c = .idle) :
      Step s (.begin c selector) (s.setPhase c (.ensure selector))
  | hit {s : ClientState} {c : CallId} {selector : BitwardenSelector} {r : Reuse}
      (h : s.calls c = .ensure selector) (hr : reuseCachedSync client.cache s.cache s.now = some r) :
      Step s (.checkCache c) ({ s with metrics := s.metrics.countReuse r }.setPhase c (.reading selector))
  | miss {s : ClientState} {c : CallId} {selector : BitwardenSelector}
      (h : s.calls c = .ensure selector) (hr : reuseCachedSync client.cache s.cache s.now = none) :
      Step s (.checkCache c) (s.setPhase c (.lockWait selector))
  | acquire {s : ClientState} {c : CallId} {selector : BitwardenSelector}
      (h : s.calls c = .lockWait selector) (hl : s.refreshLock = none) :
      Step s (.acquireLock c) ({ s with refreshLock := some c }.setPhase c (.locked selector))
  | rehit {s : ClientState} {c : CallId} {selector : BitwardenSelector} {r : Reuse}
      (h : s.calls c = .locked selector) (hr : reuseCachedSync client.cache s.cache s.now = some r) :
      Step s (.recheckCache c)
        ({ s with metrics := s.metrics.countReuse r }.setPhase c (.reading selector)).unlock
  | remiss {s : ClientState} {c : CallId} {selector : BitwardenSelector}
      (h : s.calls c = .locked selector) (hr : reuseCachedSync client.cache s.cache s.now = none) :
      Step s (.recheckCache c) (s.setPhase c (.cooldown selector))
  | throttled {s : ClientState} {c : CallId} {selector : BitwardenSelector}
      (h : s.calls c = .cooldown selector) (hd : s.retryAfter.any (s.now < ·) = true) :
      Step s (.checkCooldown c) (s.setPhase c (.done (.error (.api .refreshThrottled)))).unlock
  | startFetch {s : ClientState} {c : CallId} {selector : BitwardenSelector}
      (h : s.calls c = .cooldown selector) (hd : s.retryAfter.any (s.now < ·) = false) :
      Step s (.checkCooldown c) (s.setPhase c (.fetching selector))
  | fetched {s : ClientState} {c : CallId} {selector : BitwardenSelector} {up : Upstream} {unixNow : ℕ}
      {session : BitwardenSession} {sync : SyncResponse} (h : s.calls c = .fetching selector)
      (hf : fetchVault client.config up = .ok (session, sync)) :
      Step s (.fetchReturns c up unixNow)
        ({ s with retryAfter := none
                  metrics := { s.metrics with refreshSuccesses := s.metrics.refreshSuccesses + 1
                                              lastSuccessUnixSeconds := unixNow } }.setPhase c
          (.storeWait selector (CachedVault.new session sync s.now)))
  | fetchFailed {s : ClientState} {c : CallId} {selector : BitwardenSelector} {up : Upstream} {unixNow : ℕ}
      {e : BitwardenClientError} (h : s.calls c = .fetching selector)
      (hf : fetchVault client.config up = .error e) :
      Step s (.fetchReturns c up unixNow)
        ({ s with retryAfter := s.now.checkedAdd client.cache.refreshRetryInterval
                  metrics := { s.metrics with refreshFailures := s.metrics.refreshFailures + 1 } }.setPhase c
          (.failed selector e))
  | sample {s : ClientState} {c : CallId} {selector : BitwardenSelector} {e : BitwardenClientError}
      (h : s.calls c = .failed selector e) (hp : e.permitsStaleCache = true) :
      Step s (.sampleStale c) (s.setPhase c (.staleWait selector e s.now))
  | giveUp {s : ClientState} {c : CallId} {selector : BitwardenSelector} {e : BitwardenClientError}
      (h : s.calls c = .failed selector e) (hp : e.permitsStaleCache = false) :
      Step s (.sampleStale c) (s.setPhase c (.done (.error e))).unlock
  | stale {s s₁ : ClientState} {c : CallId} {selector : BitwardenSelector} {e : BitwardenClientError}
      {sampled : Instant} (h : s.calls c = .staleWait selector e sampled)
      (hs : client.serveStaleAfterError s sampled = some s₁) :
      Step s (.serveStale c) (s₁.setPhase c (.reading selector)).unlock
  | expired {s : ClientState} {c : CallId} {selector : BitwardenSelector} {e : BitwardenClientError}
      {sampled : Instant} (h : s.calls c = .staleWait selector e sampled)
      (hs : client.serveStaleAfterError s sampled = none) :
      Step s (.serveStale c) (s.setPhase c (.done (.error e))).unlock
  | store {s : ClientState} {c : CallId} {selector : BitwardenSelector} {v : CachedVault}
      (h : s.calls c = .storeWait selector v) :
      Step s (.storeVault c) ({ s with cache := some v }.setPhase c (.reading selector)).unlock
  | read {s : ClientState} {c : CallId} {selector : BitwardenSelector} (h : s.calls c = .reading selector) :
      Step s (.readCache c) (s.setPhase c (.done (client.readCached s selector)))
  | cancel {s : ClientState} {c : CallId} (h : (s.calls c).awaits = true) :
      Step s (.cancel c) (s.dropCall c)

variable {client}

/-- The step function takes only these transitions. -/
theorem step_cases {s s' : ClientState} {e : ClientEvent} (h : client.step s e = some s') :
    client.Step s e s' := by
  cases e with
  | tick elapsed =>
    simp only [step, Option.some.injEq] at h
    exact h ▸ .tick
  | begin c selector =>
    cases hc : s.calls c <;> simp only [step, hc, reduceCtorEq, Option.some.injEq] at h
    exact h ▸ .begin hc
  | checkCache c =>
    cases hc : s.calls c <;> simp only [step, hc, reduceCtorEq] at h
    cases hr : reuseCachedSync client.cache s.cache s.now <;>
      simp only [hr, Option.some.injEq] at h
    · exact h ▸ .miss hc hr
    · exact h ▸ .hit hc hr
  | acquireLock c =>
    cases hc : s.calls c <;> simp only [step, hc, reduceCtorEq] at h
    cases hl : s.refreshLock <;> simp only [hl, reduceCtorEq, Option.some.injEq] at h
    exact h ▸ .acquire hc hl
  | recheckCache c =>
    cases hc : s.calls c <;> simp only [step, hc, reduceCtorEq] at h
    cases hr : reuseCachedSync client.cache s.cache s.now <;>
      simp only [hr, Option.some.injEq] at h
    · exact h ▸ .remiss hc hr
    · exact h ▸ .rehit hc hr
  | checkCooldown c =>
    cases hc : s.calls c <;> simp only [step, hc, reduceCtorEq] at h
    by_cases hd : s.retryAfter.any (s.now < ·) = true
    · rw [if_pos hd, Option.some.injEq] at h
      exact h ▸ .throttled hc hd
    · rw [if_neg hd, Option.some.injEq] at h
      exact h ▸ .startFetch hc (Bool.eq_false_of_not_eq_true hd)
  | fetchReturns c up unixNow =>
    cases hc : s.calls c <;> simp only [step, hc, reduceCtorEq, Option.some.injEq] at h
    cases hf : fetchVault client.config up with
    | error e =>
      rw [hf] at h
      exact h ▸ .fetchFailed hc hf
    | ok vault =>
      rw [hf] at h
      exact h ▸ .fetched hc hf
  | sampleStale c =>
    cases hc : s.calls c <;> simp only [step, hc, reduceCtorEq] at h
    rename_i selector e
    by_cases hp : e.permitsStaleCache = true
    · rw [if_pos hp, Option.some.injEq] at h
      exact h ▸ .sample hc hp
    · rw [if_neg hp, Option.some.injEq] at h
      exact h ▸ .giveUp hc (Bool.eq_false_of_not_eq_true hp)
  | serveStale c =>
    cases hc : s.calls c <;> simp only [step, hc, reduceCtorEq] at h
    rename_i selector e sampled
    cases hs : client.serveStaleAfterError s sampled <;> simp only [hs, Option.some.injEq] at h
    · exact h ▸ .expired hc hs
    · exact h ▸ .stale hc hs
  | storeVault c =>
    cases hc : s.calls c <;> simp only [step, hc, reduceCtorEq, Option.some.injEq] at h
    exact h ▸ .store hc
  | readCache c =>
    cases hc : s.calls c <;> simp only [step, hc, reduceCtorEq, Option.some.injEq] at h
    exact h ▸ .read hc
  | cancel c =>
    by_cases ha : (s.calls c).awaits = true
    · simp only [step, ha, if_true, Option.some.injEq] at h
      exact h ▸ .cancel ha
    · simp [step, ha] at h

/-- An event leaves the other calls alone. -/
theorem step_frame {s s' : ClientState} {e : ClientEvent} (h : client.Step s e s') {c : CallId}
    (hc : e.call ≠ some c) : s'.calls c = s.calls c := by
  have other : ∀ {d : CallId} {t : ClientState} {p : Phase}, some d ≠ some c →
      (t.setPhase d p).calls c = t.calls c :=
    fun hd => ClientState.setPhase_calls_ne _ _ _ fun heq => hd (by rw [heq])
  cases h with
  | tick => rfl
  | stale _ hs =>
    obtain ⟨v, -, -, rfl⟩ := (serveStaleAfterError_eq_some client).mp hs
    exact other hc
  | cancel _ =>
    rw [ClientState.dropCall_calls]
    exact other hc
  | _ => exact other hc

/-- A call that is over is never moved again. -/
theorem done_step {s s' : ClientState} {e : ClientEvent} (h : client.Step s e s') {c : CallId}
    {result : Except BitwardenClientError SecretDocument} (hc : s.calls c = .done result) :
    s'.calls c = .done result := by
  by_cases hcall : e.call = some c
  · cases h with
    | tick => exact hc
    | cancel hp =>
      obtain rfl := Option.some.inj hcall
      simp [hc, Phase.awaits] at hp
    | _ hp =>
      obtain rfl := Option.some.inj hcall
      simp [hc] at hp
  · rw [step_frame h hcall]
    exact hc

/-- Only its beginning moves a call that has not begun. -/
theorem idle_step {s s' : ClientState} {e : ClientEvent} (h : client.Step s e s') {c : CallId}
    (hbegin : ∀ selector, e ≠ .begin c selector) (hc : s.calls c = .idle) : s'.calls c = .idle := by
  by_cases hcall : e.call = some c
  · cases h with
    | tick => exact hc
    | begin _ =>
      obtain rfl := Option.some.inj hcall
      exact absurd rfl (hbegin _)
    | cancel hp =>
      obtain rfl := Option.some.inj hcall
      simp [hc, Phase.awaits] at hp
    | _ hp =>
      obtain rfl := Option.some.inj hcall
      simp [hc] at hp
  · rw [step_frame h hcall]
    exact hc

/-- A call that has begun is never idle again. -/
theorem idle_of_step {s s' : ClientState} {e : ClientEvent} (h : client.Step s e s') {c : CallId}
    (hc : s'.calls c = .idle) : s.calls c = .idle := by
  by_cases hcall : e.call = some c
  · cases h with
    | tick => exact hc
    | begin hp =>
      obtain rfl := Option.some.inj hcall
      exact hp
    | cancel hp =>
      obtain rfl := Option.some.inj hcall
      simp at hc
    | _ hp =>
      obtain rfl := Option.some.inj hcall
      simp at hc
  · rw [← step_frame h hcall]
    exact hc

/-! ### Where a call can stand -/

variable (client) in
/-- An error of the cache step itself: the cooldown's, or one a fetch returned. -/
def CacheStepError (e : BitwardenClientError) : Prop :=
  e = .api .refreshThrottled ∨ ∃ up, fetchVault client.config up = .error e

theorem CacheStepError.ne_notFound {e : BitwardenClientError} (h : client.CacheStepError e) :
    e ≠ .api .cipherNotFound := by
  rcases h with rfl | ⟨up, h⟩
  · simp
  · exact (fetchVault_error h).1

variable (client) in
/-- The phases of a call for `selector`. `Read` is what reading the cache may
have given it. -/
def CallAt (selector : BitwardenSelector) (Read : Except BitwardenClientError SecretDocument → Prop) :
    Phase → Prop
  | .idle | .cancelled => False
  | .ensure s | .lockWait s | .locked s | .cooldown s | .fetching s | .storeWait s _ | .reading s =>
    s = selector
  | .failed s e | .staleWait s e _ => s = selector ∧ client.CacheStepError e
  | .done result => Read result ∨ ∃ e, result = .error e ∧ client.CacheStepError e

theorem CallAt.mono {selector : BitwardenSelector}
    {Read Read' : Except BitwardenClientError SecretDocument → Prop} (hmono : ∀ r, Read r → Read' r)
    {p : Phase} (h : client.CallAt selector Read p) : client.CallAt selector Read' p := by
  cases p with
  | done result =>
    rcases h with h | h
    · exact Or.inl (hmono _ h)
    · exact Or.inr h
  | _ => exact h

/-- A step keeps a call where a call for its selector can stand, unless it
begins or drops it. -/
theorem CallAt.step {s s' : ClientState} {e : ClientEvent} {c : CallId} {selector : BitwardenSelector}
    {Read : Except BitwardenClientError SecretDocument → Prop} (hstep : client.Step s e s')
    (hcancel : e ≠ .cancel c) (hread : e = .readCache c → s.calls c = .reading selector →
      Read (client.readCached s selector))
    (h : client.CallAt selector Read (s.calls c)) : client.CallAt selector Read (s'.calls c) := by
  by_cases hc : e.call = some c
  · cases hstep
    case tick => simp [ClientEvent.call] at hc
    case cancel => exact absurd (by rw [Option.some.inj hc]) hcancel
    all_goals
      obtain rfl := Option.some.inj hc
      simp only [ClientState.unlock_calls, ClientState.setPhase_calls_self]
    case begin hp => simp [CallAt, hp] at h
    case throttled hp _ => exact Or.inr ⟨_, rfl, Or.inl rfl⟩
    case fetchFailed hp hf =>
      rw [hp] at h
      exact ⟨h, Or.inr ⟨_, hf⟩⟩
    case giveUp hp _ | expired hp _ =>
      rw [hp] at h
      exact Or.inr ⟨_, rfl, h.2⟩
    case stale hp _ =>
      rw [hp] at h
      exact h.1
    case read hp =>
      rw [hp] at h
      obtain rfl : _ = selector := h
      exact Or.inl (hread rfl hp)
    case store hp =>
      rw [hp] at h
      exact h
    case hit hp _ | miss hp _ | acquire hp _ | rehit hp _ | remiss hp _ | startFetch hp _ | fetched hp _ |
        sample hp _ =>
      rw [hp] at h
      exact h
  · rw [step_frame hstep hc]
    exact h

end Client

end Bweso
