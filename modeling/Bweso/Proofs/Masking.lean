import Bweso.Proofs.Recorded

/-! A definitive refresh failure and the stale cache. The cache remembers until
when a refresh was put off, not why the last one failed: a transient failure
after a definitive one puts the old vault back into service. Without such a
step, nothing fetched before a definitive failure is served after it. -/

namespace Bweso

/-- Inside the lock, past the second check of the cache. -/
def Phase.refreshing : Phase → Bool
  | .cooldown _ | .fetching _ | .failed .. | .staleWait .. | .storeWait .. => true
  | _ => false

theorem Phase.holdsLock_of_refreshing {p : Phase} (h : p.refreshing = true) : p.holdsLock = true := by
  cases p with
  | cooldown _ => rfl
  | fetching _ => rfl
  | failed _ _ => rfl
  | staleWait _ _ _ => rfl
  | storeWait _ _ => rfl
  | _ => cases h

theorem CachedVault.isFreshAt_earlier {v : CachedVault} {ttl : Duration} {now later : Instant} (hle : now ≤ later)
    (h : v.isFreshAt ttl later = true) : v.isFreshAt ttl now = true := by
  rw [CachedVault.isFreshAt_iff] at h ⊢
  obtain ⟨henabled, hage, htoken⟩ := h
  refine ⟨henabled, by lia, fun expiresAt hexp => ?_⟩
  have hlater := htoken expiresAt hexp
  lia

/-- What cannot be reused now cannot be reused later. -/
theorem reuseCachedSync_later {config : BitwardenCacheConfig} {cache : Option CachedVault} {now later : Instant}
    (hle : now ≤ later) (h : reuseCachedSync config cache now = none) :
    reuseCachedSync config cache later = none := by
  rw [reuseCachedSync_eq_none] at h ⊢
  intro v hv
  obtain ⟨hfresh, hdefer⟩ := h v hv
  refine ⟨Bool.eq_false_of_not_eq_true fun hlater => ?_, Bool.eq_false_of_not_eq_true fun hlater => ?_⟩
  · rw [CachedVault.isFreshAt_earlier hle hlater] at hfresh
    cases hfresh
  · rw [CachedVault.canDeferRefreshAt_earlier hle hlater] at hdefer
    cases hdefer

namespace Client

variable (client : Client)

/-- A definitive failure with no success after it. -/
def Unresolved (tr : Trace) : Prop :=
  ∃ before q d up unixNow error after, tr = before ++ (q, .fetchReturns d up unixNow) :: after ∧
    fetchVault client.config up = .error error ∧ error.permitsStaleCache = false ∧
    ∀ x ∈ after, client.success x = none

/-- A definitive failure is masked: a call that began after it, with no success
in between, reads a vault fetched before it. -/
def Masks (tr : Trace) : Prop :=
  ∃ before q d up unixNow error mid p c rest,
    tr = before ++ (q, .fetchReturns d up unixNow) :: (mid ++ (p, .readCache c) :: rest) ∧
    fetchVault client.config up = .error error ∧ error.permitsStaleCache = false ∧
    (∀ x ∈ mid, client.success x = none) ∧ (∃ b selector, (b, .begin c selector) ∈ mid) ∧
    ∃ v b w, p.cache = some v ∧ client.FetchedBy before b w ∧ v.Same w

/-- The cached vault, if any, is out of service for good. -/
def Dead (s : ClientState) : Prop := ∀ n, s.now ≤ n → reuseCachedSync client.cache s.cache n = none

variable {client} {tr after : Trace} {s s' : ClientState} {e : ClientEvent} {c : CallId}

theorem Dead.keep (h : client.Dead s) (hcache : s'.cache = s.cache) (hnow : s.now ≤ s'.now) : client.Dead s' := by
  intro n hn
  rw [hcache]
  exact h n (hnow.trans hn)

/-- A call in the middle of a refresh found the cache out of service. -/
theorem dead_own (h : client.Step s e s') (he : e.call = some c)
    (hs : (s.calls c).refreshing = true → client.Dead s) (hc' : (s'.calls c).refreshing = true) :
    client.Dead s' := by
  cases h
  case tick => cases he
  all_goals
    obtain rfl := Option.some.inj he
    simp only [ClientState.unlock_calls, ClientState.dropCall_calls, ClientState.setPhase_calls_self] at hc'
  case remiss hc hr => exact fun n hn => reuseCachedSync_later hn hr
  case startFetch hc _ => exact (hs (by rw [hc]; rfl)).keep rfl le_rfl
  case fetched hc _ => exact (hs (by rw [hc]; rfl)).keep rfl le_rfl
  case fetchFailed hc _ => exact (hs (by rw [hc]; rfl)).keep rfl le_rfl
  case sample hc _ => exact (hs (by rw [hc]; rfl)).keep rfl le_rfl
  all_goals cases hc'

theorem runs_dead (h : client.Runs tr s) (hc : (s.calls c).refreshing = true) : client.Dead s := by
  induction h with
  | nil => cases hc
  | @snoc tr s s' e hrun hstep ih =>
    by_cases he : e.call = some c
    · exact dead_own (step_cases hstep) he ih hc
    · rw [step_frame (step_cases hstep) he] at hc
      have hlock := Phase.holdsLock_of_refreshing hc
      obtain ⟨hcache, -⟩ := step_guarded (step_cases hstep) (runs_held hrun held_init) hlock he
      exact (ih hc).keep hcache (step_now (step_cases hstep))

/-! ### After a definitive failure -/

variable (client) in
/-- The stale cache is not served at this step. -/
def Withheld : ClientState × ClientEvent → Prop
  | (p, .serveStale c) => ∀ selector error sampled v, p.calls c = .staleWait selector error sampled →
      p.cache = some v → v.isWithinStaleIfErrorAt client.cache sampled = false
  | _ => True

variable (client) in
/-- Since the failure nothing was fetched, and no call that began after it has
been let through to the cache. -/
structure Shut (after : Trace) (s : ClientState) : Prop where
  held : Held s
  dead : client.Dead s
  empty : s.pending = none
  unread : ∀ c b selector, (b, .begin c selector) ∈ after → ∀ selector', s.calls c ≠ .reading selector'

/-- How a call comes to read the cache. -/
theorem reading_of_step {selector : BitwardenSelector} (h : client.Step s e s')
    (hr : s'.calls c = .reading selector) :
    s.calls c = .reading selector ∨ reuseCachedSync client.cache s.cache s.now ≠ none ∨
      ¬ client.Withheld (s, e) ∨ ∃ v, s.calls c = .storeWait selector v := by
  by_cases he : e.call = some c
  · cases h
    case tick => cases he
    all_goals
      obtain rfl := Option.some.inj he
      simp only [ClientState.unlock_calls, ClientState.dropCall_calls, ClientState.setPhase_calls_self] at hr
    case hit _ hreuse => exact Or.inr (Or.inl (by rw [hreuse]; simp))
    case rehit _ hreuse => exact Or.inr (Or.inl (by rw [hreuse]; simp))
    case stale hc hstale =>
      obtain ⟨v, hv, hwithin, -⟩ := (serveStaleAfterError_eq_some client).mp hstale
      refine Or.inr (Or.inr (Or.inl fun hheld => ?_))
      rw [hheld _ _ _ v hc hv] at hwithin
      cases hwithin
    case store v hc =>
      obtain rfl := Phase.reading.inj hr
      exact Or.inr (Or.inr (Or.inr ⟨v, hc⟩))
    all_goals cases hr
  · rw [step_frame h he] at hr
    exact Or.inl hr

theorem Shut.cache (h : client.Step s e s') (hs : client.Shut after s) (hheld : client.Withheld (s, e)) :
    s'.cache = s.cache := by
  cases step_effect h with
  | quiet hcache => exact hcache
  | returned _ hcache => exact hcache
  | deferred hc hv hwithin =>
    rw [hheld _ _ _ _ hc hv] at hwithin
    cases hwithin
  | stored hc =>
    have hpending := pending_eq hs.held (by rw [hc]; rfl)
    rw [hs.empty, hc] at hpending
    cases hpending

theorem Shut.step (h : client.Step s e s') (hs : client.Shut after s) (hsuccess : client.success (s, e) = none)
    (hheld : client.Withheld (s, e)) : client.Shut (after ++ [(s, e)]) s' where
  held := hs.held.step h
  dead := hs.dead.keep (hs.cache h hheld) (step_now h)
  empty := by
    cases step_account hs.held h with
    | quiet hpending => rw [hpending, hs.empty]
    | fetched hsome =>
      rw [hsuccess] at hsome
      cases hsome
    | stored _ hpending' => exact hpending'
    | lost _ hpending' => exact hpending'
  unread := by
    intro c b selector hm selector' hr
    rcases reading_of_step h hr with hreading | hreuse | hserved | ⟨v, hc⟩
    · rcases List.mem_append.mp hm with hm | hm
      · exact hs.unread c b selector hm selector' hreading
      · -- the call begins here, so it was idle
        obtain ⟨rfl, rfl⟩ := Prod.mk.inj (List.mem_singleton.mp hm)
        cases h with
        | begin hidle =>
          rw [hidle] at hreading
          cases hreading
    · exact hreuse (hs.dead s.now le_rfl)
    · exact hserved hheld
    · have hpending := pending_eq hs.held (by rw [hc]; rfl)
      rw [hs.empty, hc] at hpending
      cases hpending

theorem runs_shut {s₀ : ClientState} (h : Run client.step s₀ after s) (h0 : client.Shut [] s₀)
    (hsuccess : ∀ x ∈ after, client.success x = none) (hheld : ∀ x ∈ after, client.Withheld x) :
    client.Shut after s := by
  induction h with
  | nil => exact h0
  | @snoc after s s' e hrun hstep ih =>
    have hself : (s, e) ∈ after ++ [(s, e)] := List.mem_append_right _ List.mem_cons_self
    have hshut := ih (fun x hx => hsuccess x (List.mem_append_left _ hx))
      (fun x hx => hheld x (List.mem_append_left _ hx))
    exact hshut.step (step_cases hstep) (hsuccess _ hself) (hheld _ hself)

/-- A failed fetch shuts the cache. -/
theorem shut_of_failure {up : Upstream} {unixNow : ℕ} {error : BitwardenClientError} (h : client.Runs tr s)
    (hstep : client.step s (.fetchReturns c up unixNow) = some s')
    (hf : fetchVault client.config up = .error error) : client.Shut [] s' := by
  have hs := runs_held h held_init
  cases step_cases hstep with
  | fetched _ hok =>
    rw [hf] at hok
    cases hok
  | fetchFailed hc _ =>
    have hs' := hs.step (step_cases hstep)
    refine ⟨hs', (runs_dead h (by rw [hc]; rfl)).keep rfl le_rfl, ?_, fun _ _ _ hm => by simp at hm⟩
    rw [pending_eq hs' (by rw [ClientState.setPhase_calls_self]; rfl), ClientState.setPhase_calls_self]
    rfl

end Client

open Client

/-- In a run that never serves the stale cache while a definitive failure is
unresolved, no such failure is masked. -/
theorem definitive_failure_not_masked (client : Client) (tr : Trace) (s : ClientState) (h : client.Runs tr s)
    (hsteps : ∀ before p c after, tr = before ++ (p, .serveStale c) :: after → client.Unresolved before →
      ∀ selector error sampled v, p.calls c = .staleWait selector error sampled → p.cache = some v →
        v.isWithinStaleIfErrorAt client.cache sampled = false) : ¬ client.Masks tr := by
  intro hmasks
  obtain ⟨before, q, d, up, unixNow, error, mid, p, c, rest, htr, hf, hdef, hsuccess, hbegins, -⟩ := hmasks
  obtain ⟨b, selector, hbegin⟩ := hbegins
  subst htr
  obtain ⟨hbefore, q', hfail, hrest⟩ := h.split
  obtain ⟨hmid, p', hread, -⟩ := hrest.split
  have hheld : ∀ x ∈ mid, client.Withheld x := by
    intro x hx
    obtain ⟨p₀, e₀⟩ := x
    cases e₀ with
    | serveStale c₀ =>
      obtain ⟨mid₁, mid₂, rfl⟩ := List.mem_iff_append.mp hx
      refine hsteps (before ++ (q, .fetchReturns d up unixNow) :: mid₁) p₀ c₀ (mid₂ ++ (p, .readCache c) :: rest)
        (by simp) ⟨before, q, d, up, unixNow, error, mid₁, rfl, hf, hdef, fun y hy => ?_⟩
      exact hsuccess y (List.mem_append_left _ hy)
    | _ => trivial
  have hshut := runs_shut hmid (shut_of_failure hbefore hfail hf) hsuccess hheld
  cases step_cases hread with
  | read hreading => exact hshut.unread c b selector hbegin _ hreading

/-! ### A revoked key, then an outage

A vault is fetched; a minute later the key is refused; fifteen seconds later the
network is down, and the vault is served again. -/

/-- The key is refused. -/
def deniedUpstream : Upstream := { vectorUpstream with token := fun _ _ => .response 401 [] true }

theorem fetchVault_denied :
    fetchVault vectorConfig deniedUpstream = .error (.api (.httpStatus "token".toList 401)) := by
  decide

theorem fetchVault_outage : fetchVault vectorConfig outageUpstream = .error (.api .http) := by
  decide

/-- Only a fetch can succeed. -/
theorem success_of_label {client : Client} {x : ClientState × ClientEvent}
    (h : ∀ c up unixNow, x.2 ≠ .fetchReturns c up unixNow) : client.success x = none := by
  obtain ⟨s, e⟩ := x
  cases e with
  | fetchReturns c up unixNow => exact absurd rfl (h c up unixNow)
  | _ => rfl

theorem success_of_error {s : ClientState} {c : CallId} {up : Upstream} {unixNow : ℕ} {error : BitwardenClientError}
    {client : Client} (hf : fetchVault client.config up = .error error) :
    client.success (s, .fetchReturns c up unixNow) = none := by
  simp only [success, hf]

def secondRefused : ClientState :=
  outageClient.afterFetch secondFetch 1 outageSelector 1700000060 (.error (.api (.httpStatus "token".toList 401)))

theorem secondFetch_runs : ∃ tr, outageClient.Runs tr secondFetch ∧
    outageClient.FetchedBy tr 0 (CachedVault.new vectorSession ⟨[vectorCipher]⟩ 0) ∧
    ∀ p c, (p, .serveStale c) ∉ tr := by
  have hsecond : Run outageClient.step firstFetched _ secondFetch := Run.of_isSome secondEvents (by rfl)
  refine ⟨_, firstFetched_runs.append hsecond,
    ⟨firstFetch, vectorUpstream, 1700000000, vectorSession, _, ?_, fetchVault_vector, rfl⟩, fun p c hm => ?_⟩
  · apply List.mem_append_left
    apply List.mem_append_right
    exact List.mem_cons_self
  · simp only [List.mem_append, List.mem_singleton, Prod.mk.injEq, reduceCtorEq, and_false, or_false] at hm
    rcases hm with hm | hm
    · have hlabel := Run.label_mem (refreshEvents 0 outageSelector) _ hm
      simp [refreshEvents] at hlabel
    · have hlabel := Run.label_mem secondEvents _ hm
      simp [secondEvents, refreshEvents] at hlabel

theorem secondRefused_step :
    outageClient.step secondFetch (.fetchReturns 1 deniedUpstream 1700000060) = some secondRefused :=
  step_fetchReturns rfl fetchVault_denied

/-- The third call comes too late for the stale vault. -/
def lateEvents : List ClientEvent :=
  .sampleStale 1 :: .tick (Duration.fromSecs 400) :: refreshEvents 2 outageSelector

def lateFetch : ClientState := ((Run.exec outageClient.step secondRefused lateEvents).get (by rfl)).2

def lateSampled : ClientState :=
  ((Run.exec outageClient.step (outageClient.afterFetch lateFetch 2 outageSelector 1700000460 (.error (.api .http)))
    [.sampleStale 2]).get (by rfl)).2

theorem lateSampled_expired {selector : BitwardenSelector} {error : BitwardenClientError} {sampled : Instant}
    {v : CachedVault} (hc : lateSampled.calls 2 = .staleWait selector error sampled)
    (hv : lateSampled.cache = some v) : v.isWithinStaleIfErrorAt outageClient.cache sampled = false := by
  have hphase : lateSampled.calls 2 = .staleWait outageSelector (.api .http) (Duration.fromSecs 460) := rfl
  have hcache : lateSampled.cache = some (CachedVault.new vectorSession ⟨[vectorCipher]⟩ 0) := rfl
  obtain ⟨-, -, rfl⟩ := Phase.staleWait.inj (hphase.symm.trans hc)
  obtain rfl := Option.some.inj (hcache.symm.trans hv)
  rfl

theorem definitive_failure_not_masked_late : ∃ tr s, outageClient.Runs tr s ∧
    s.calls 2 = .done (.error (.api .http)) ∧ ¬ outageClient.Masks tr := by
  obtain ⟨before, hsecond, -, hnone⟩ := secondFetch_runs
  have hlate : Run outageClient.step secondRefused _ lateFetch := Run.of_isSome lateEvents (by rfl)
  have hsampled : Run outageClient.step _ _ lateSampled := Run.of_isSome [ClientEvent.sampleStale 2] (by rfl)
  have hserve : outageClient.step lateSampled (.serveStale 2) =
      some (lateSampled.setPhase 2 (.done (.error (.api .http)))).unlock := rfl
  have hrun := ((((hsecond.snoc secondRefused_step).append hlate).snoc
    (step_fetchReturns rfl fetchVault_outage)).append hsampled).snoc hserve
  refine ⟨_, _, hrun, rfl, definitive_failure_not_masked outageClient _ _ hrun ?_⟩
  intro before' p c after htr _ selector error sampled v hc hv
  have hm : (p, ClientEvent.serveStale c) ∈ before' ++ (p, .serveStale c) :: after := by simp
  rw [← htr] at hm
  simp only [List.mem_append, List.mem_singleton, Prod.mk.injEq, reduceCtorEq, and_false, or_false] at hm
  rcases hm with ((hm | hm) | hm) | ⟨rfl, hcall⟩
  · exact absurd hm (hnone p c)
  · have hlabel := Run.label_mem lateEvents _ hm
    simp [lateEvents, refreshEvents] at hlabel
  · have hlabel := Run.label_mem [ClientEvent.sampleStale 2] _ hm
    simp at hlabel
  · obtain rfl := ClientEvent.serveStale.inj hcall
    exact lateSampled_expired hc hv

def thirdEvents : List ClientEvent :=
  .sampleStale 1 :: .tick (Duration.fromSecs 15) :: refreshEvents 2 outageSelector

/-- Past the cooldown the third call meets an outage. -/
def thirdFetch : ClientState := ((Run.exec outageClient.step secondRefused thirdEvents).get (by rfl)).2

def thirdFailed : ClientState :=
  outageClient.afterFetch thirdFetch 2 outageSelector 1700000075 (.error (.api .http))

def servedEvents : List ClientEvent := [.sampleStale 2, .serveStale 2]

/-- It is let through to the vault. -/
def thirdServed : ClientState := ((Run.exec outageClient.step thirdFailed servedEvents).get (by rfl)).2

theorem thirdServed_runs : ∃ mid, Run outageClient.step secondRefused mid thirdServed ∧
    (∀ x ∈ mid, outageClient.success x = none) ∧ ∃ b, (b, .begin 2 outageSelector) ∈ mid := by
  have hthird : Run outageClient.step secondRefused _ thirdFetch := Run.of_isSome thirdEvents (by rfl)
  have hfailed : Run outageClient.step secondRefused _ thirdFailed :=
    hthird.snoc (step_fetchReturns rfl fetchVault_outage)
  have hserved : Run outageClient.step thirdFailed _ thirdServed := Run.of_isSome servedEvents (by rfl)
  refine ⟨_, hfailed.append hserved, fun x hx => ?_, ?_⟩
  · simp only [List.mem_append, List.mem_singleton] at hx
    rcases hx with (hx | rfl) | hx
    · have hlabel := Run.label_mem thirdEvents _ hx
      apply success_of_label
      intro c up unixNow heq
      simp [heq, thirdEvents, refreshEvents] at hlabel
    · exact success_of_error fetchVault_outage
    · have hlabel := Run.label_mem servedEvents _ hx
      apply success_of_label
      intro c up unixNow heq
      simp [heq, servedEvents] at hlabel
  · obtain ⟨b, hb⟩ := Run.exists_of_label thirdEvents
      (by rfl : (Run.exec outageClient.step secondRefused _).isSome = true)
      (by simp [thirdEvents, refreshEvents] : ClientEvent.begin 2 outageSelector ∈ thirdEvents)
    exact ⟨b, List.mem_append_left _ (List.mem_append_left _ hb)⟩

theorem denial_masked : ∃ tr s, outageClient.Runs tr s ∧ outageClient.Masks tr := by
  obtain ⟨before, hsecond, hvault, -⟩ := secondFetch_runs
  obtain ⟨mid, hthird, hsuccess, b, hbegin⟩ := thirdServed_runs
  have hread : outageClient.step thirdServed (.readCache 2) =
      some (thirdServed.setPhase 2 (.done (outageClient.readCached thirdServed outageSelector))) := rfl
  have hrun := ((hsecond.snoc secondRefused_step).append hthird).snoc hread
  refine ⟨_, _, hrun, before, secondFetch, 1, deniedUpstream, 1700000060, _, mid, thirdServed, 2, [], ?_,
    fetchVault_denied, rfl, hsuccess, ⟨b, outageSelector, hbegin⟩, _, 0, _, rfl, hvault, rfl⟩
  simp

end Bweso
