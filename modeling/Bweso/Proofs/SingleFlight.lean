import Bweso.Sanity.Refresh

/-! Single-flight refresh and the failure cooldown, over every interleaving of
resolves, upstream outcomes, clock ticks and cancellations. -/

namespace Bweso

namespace Client

variable (client : Client)

/-- The refresh completed last in `tr` failed, and its cooldown, if there is a
representable end to it, is not over at `now`. -/
def CoolingAt (tr : Trace) (now : Instant) : Prop :=
  ∃ endedAt error deadline, client.lastAttempt tr = some ⟨endedAt, .error error⟩ ∧
    endedAt.checkedAdd client.cache.refreshRetryInterval = some deadline ∧ now < deadline

/-- A `fetch_vault` of the call `c` starts between two states. -/
def StartsFetch (p p' : ClientState) (c : CallId) : Prop :=
  (∀ selector, p.calls c ≠ .fetching selector) ∧ ∃ selector, p'.calls c = .fetching selector

variable {client} {tr after : Trace} {s s' : ClientState} {e : ClientEvent} {c : CallId}

theorem Consistent.cooling_iff (hs : client.Consistent tr s) (now : Instant) :
    s.retryAfter.any (now < ·) = true ↔ client.CoolingAt tr now := by
  rw [hs.cooldown, Option.any_eq_true]
  refine ⟨fun ⟨d, hd, hlt⟩ => ?_, fun ⟨endedAt, error, d, hlast, hd, hlt⟩ => ⟨d, ?_, decide_eq_true hlt⟩⟩
  · cases hlast : client.lastAttempt tr with
    | none => simp [hlast, deadline] at hd
    | some a =>
      obtain ⟨endedAt, outcome⟩ := a
      cases outcome with
      | ok vault => simp [hlast, deadline] at hd
      | error error =>
        rw [hlast] at hd
        exact ⟨endedAt, error, d, hlast, hd, of_decide_eq_true hlt⟩
  · rw [hlast]
    exact hd

/-- Only the cooldown check of a call that holds the lock starts its fetch. -/
theorem startsFetch_cases (h : client.Step s e s') (hstart : StartsFetch s s' c) :
    e = .checkCooldown c ∧ (∃ selector, s.calls c = .cooldown selector) ∧
      s.retryAfter.any (s.now < ·) = false := by
  obtain ⟨hnot, selector', hfetching⟩ := hstart
  by_cases he : e.call = some c
  · cases h with
    | tick => simp [ClientEvent.call] at he
    | startFetch hc hd =>
      obtain rfl := Option.some.inj he
      exact ⟨rfl, ⟨_, hc⟩, hd⟩
    | cancel hc =>
      obtain rfl := Option.some.inj he
      simp at hfetching
    | _ hc =>
      obtain rfl := Option.some.inj he
      simp at hfetching
  · rw [step_frame h he] at hfetching
    exact absurd hfetching (hnot selector')

/-! ### A call inside the lock -/

variable (client) in
/-- The second check of `c` reused the cached vault. -/
def ReusedBy (after : Trace) (c : CallId) : Prop :=
  ∃ q r, (q, .recheckCache c) ∈ after ∧ reuseCachedSync client.cache q.cache q.now = some r

variable (client) in
/-- `c` looked at the cooldown under the lock, no refresh having completed since
it took it. -/
def Checked (after : Trace) (c : CallId) (cooling : Bool) : Prop :=
  ∃ mid q rest, after = mid ++ (q, .checkCooldown c) :: rest ∧ q.refreshLock = some c ∧
    client.lastAttempt mid = none ∧ q.retryAfter.any (q.now < ·) = cooling

variable (client) in
/-- Where a call can stand after `after`, counted from its acquisition. -/
def Inside (after : Trace) (c : CallId) : Phase → Prop
  | .locked _ | .cooldown _ => client.lastAttempt after = none
  | .fetching _ | .failed .. | .staleWait .. | .storeWait .. => client.Checked after c false
  | .reading _ => client.ReusedBy after c ∨ client.Checked after c false
  | .done result => client.ReusedBy after c ∨ client.Checked after c false ∨
      client.Checked after c true ∧ result = .error (.api .refreshThrottled)
  | .cancelled => True
  | .idle | .ensure _ | .lockWait _ => False

theorem ReusedBy.snoc (h : client.ReusedBy after c) (x : ClientState × ClientEvent) :
    client.ReusedBy (after ++ [x]) c := by
  obtain ⟨q, r, hq, hr⟩ := h
  exact ⟨q, r, List.mem_append_left _ hq, hr⟩

theorem Checked.snoc {cooling : Bool} (h : client.Checked after c cooling) (x : ClientState × ClientEvent) :
    client.Checked (after ++ [x]) c cooling := by
  obtain ⟨mid, q, rest, rfl, hq⟩ := h
  exact ⟨mid, q, rest ++ [x], by rw [List.append_assoc, List.cons_append], hq⟩

theorem Inside.frame {p : Phase} (h : client.Step s e s') (hs : Held s) (hp : s.calls c = p)
    (he : e.call ≠ some c) (hin : client.Inside after c p) : client.Inside (after ++ [(s, e)]) c p := by
  have guarded : p.holdsLock = true → client.lastAttempt (after ++ [(s, e)]) = client.lastAttempt after :=
    fun hlock => lastAttempt_quiet (step_guarded h hs (by rw [hp]; exact hlock) he).2.2
  cases p with
  | locked _ => exact (guarded rfl).trans hin
  | cooldown _ => exact (guarded rfl).trans hin
  | reading _ =>
    rcases hin with hreused | hchecked
    · exact Or.inl (hreused.snoc _)
    · exact Or.inr (hchecked.snoc _)
  | done result =>
    rcases hin with hreused | hchecked | ⟨hchecked, hresult⟩
    · exact Or.inl (hreused.snoc _)
    · exact Or.inr (Or.inl (hchecked.snoc _))
    · exact Or.inr (Or.inr ⟨hchecked.snoc _, hresult⟩)
  | cancelled => trivial
  | idle => exact hin.elim
  | ensure _ => exact hin.elim
  | lockWait _ => exact hin.elim
  | _ => exact Checked.snoc hin _

theorem Inside.own (h : client.Step s e s') (hs : Held s) (he : e.call = some c)
    (hin : client.Inside after c (s.calls c)) : client.Inside (after ++ [(s, e)]) c (s'.calls c) := by
  have hself : (s, e) ∈ after ++ [(s, e)] := List.mem_append_right _ List.mem_cons_self
  cases h
  case tick => simp [ClientEvent.call] at he
  all_goals
    obtain rfl := Option.some.inj he
    simp only [ClientState.unlock_calls, ClientState.dropCall_calls, ClientState.setPhase_calls_self]
  case cancel => trivial
  case rehit hc hr => exact Or.inl ⟨s, _, hself, hr⟩
  case remiss hc _ =>
    rw [hc] at hin
    exact (lastAttempt_quiet rfl).trans hin
  case throttled hc hd =>
    rw [hc] at hin
    exact Or.inr (Or.inr ⟨⟨after, s, [], rfl, (hs _).mp (by rw [hc]; rfl), hin, hd⟩, rfl⟩)
  case startFetch hc hd =>
    rw [hc] at hin
    exact ⟨after, s, [], rfl, (hs _).mp (by rw [hc]; rfl), hin, hd⟩
  case fetched hc _ | fetchFailed hc _ | sample hc _ =>
    rw [hc] at hin
    exact Checked.snoc hin _
  case stale hc _ =>
    rw [hc] at hin
    exact Or.inr (Checked.snoc hin _)
  case store hc =>
    rw [hc] at hin
    exact Or.inr (Checked.snoc hin _)
  case giveUp hc _ | expired hc _ =>
    rw [hc] at hin
    exact Or.inr (Or.inl (Checked.snoc hin _))
  case read hc =>
    rw [hc] at hin
    rcases hin with hreused | hchecked
    · exact Or.inl (hreused.snoc _)
    · exact Or.inr (Or.inl (hchecked.snoc _))
  -- a call inside the lock neither begins nor waits for it
  case hit hc _ | miss hc _ | acquire hc _ =>
    rw [hc] at hin
    exact hin.elim
  case begin hc =>
    rw [hc] at hin
    exact hin.elim

/-- What happens to a call from the moment it takes the lock. -/
theorem runs_inside {p : ClientState} {selector : BitwardenSelector} (h : Run client.step p after s)
    (hp : Held p) (hc : p.calls c = .locked selector) : client.Inside after c (s.calls c) := by
  induction h with
  | nil =>
    rw [hc]
    rfl
  | @snoc after s s' e hrun hstep ih =>
    have hs := runs_held hrun hp
    by_cases he : e.call = some c
    · exact Inside.own (step_cases hstep) hs he ih
    · rw [step_frame (step_cases hstep) he]
      exact Inside.frame (step_cases hstep) hs rfl he ih

/-- A completed call that took the lock reused the cache, or looked at the
cooldown of the refresh completed before it took the lock, and gave up if that
was not over. -/
theorem completed_inside {before : Trace} {p : ClientState} {result : Except BitwardenClientError SecretDocument}
    (h : client.Runs (before ++ (p, .acquireLock c) :: after) s) (hdone : s.calls c = .done result) :
    client.ReusedBy after c ∨ ∃ mid q rest, after = mid ++ (q, .checkCooldown c) :: rest ∧
      q.refreshLock = some c ∧ (client.CoolingAt before q.now → result = .error (.api .refreshThrottled)) := by
  obtain ⟨hbefore, p', hstep, hafter⟩ := h.split
  have hs := runs_consistent hbefore
  cases step_cases hstep with
  | acquire hc hfree =>
    have hin := runs_inside hafter (hs.held.step (step_cases hstep)) (ClientState.setPhase_calls_self _ _ _)
    rw [hdone] at hin
    -- at the check, the last refresh is still the one before the acquisition
    have cooling : ∀ {mid q rest}, after = mid ++ (q, .checkCooldown c) :: rest → client.lastAttempt mid = none →
        (q.retryAfter.any (q.now < ·) = true ↔ client.CoolingAt before q.now) := by
      intro mid q rest hafter hmid
      rw [hafter, ← List.cons_append, ← List.append_assoc] at h
      rw [(runs_consistent h.split.1).cooling_iff, CoolingAt, CoolingAt, ← List.singleton_append,
        ← List.append_assoc, lastAttempt_append, hmid, Option.none_or, lastAttempt_quiet rfl]
    rcases hin with hreused | ⟨mid, q, rest, hsplit, hlock, hmid, hover⟩ | ⟨⟨mid, q, rest, hsplit, hlock, -⟩, hresult⟩
    · exact Or.inl hreused
    · refine Or.inr ⟨mid, q, rest, hsplit, hlock, fun hcooling => ?_⟩
      rw [← cooling hsplit hmid, hover] at hcooling
      simp at hcooling
    · exact Or.inr ⟨mid, q, rest, hsplit, hlock, fun _ => hresult⟩

end Client

open Client

/-- (i) One call at a time is inside `fetch_vault`. (ii) A fetch starts only
under the lock, after the second check found no vault, or one neither fresh nor
deferred, and never within the cooldown of the refresh completed last, whatever
that failed with. (iii) A completed call that took the lock reused the cache or,
within that cooldown, was throttled. (iv) A cancellation releases the lock if the
call held it, for the next to take, and changes nothing else. -/
theorem refresh_single_flight (client : Client) (tr : Trace) (s : ClientState) (h : client.Runs tr s) :
    (∀ c d selector selector', s.calls c = .fetching selector → s.calls d = .fetching selector' → c = d) ∧
    (∀ before p e p' after c, tr = before ++ (p, e) :: after → client.step p e = some p' →
      StartsFetch p p' c → p.refreshLock = some c ∧ ¬ client.CoolingAt before p.now ∧
        ∃ q, (q, .recheckCache c) ∈ before ∧ q.refreshLock = some c ∧ q.cache = p.cache ∧
          ∀ v, q.cache = some v → v.isFreshAt client.cache.ttl q.now = false ∧
            v.canDeferRefreshAt client.cache q.now = false) ∧
    (∀ before p c after result, tr = before ++ (p, .acquireLock c) :: after → s.calls c = .done result →
      client.ReusedBy after c ∨ ∃ mid q rest, after = mid ++ (q, .checkCooldown c) :: rest ∧
        q.refreshLock = some c ∧ (client.CoolingAt before q.now → result = .error (.api .refreshThrottled))) ∧
    ∀ before p c p' after, tr = before ++ (p, .cancel c) :: after → client.step p (.cancel c) = some p' →
      p'.cache = p.cache ∧ p'.retryAfter = p.retryAfter ∧ p'.metrics = p.metrics ∧
        (∀ d, d ≠ c → p'.calls d = p.calls d) ∧ p'.calls c = .cancelled ∧
        p'.refreshLock = (if p.refreshLock = some c then none else p.refreshLock) ∧
        ∀ d selector, p'.refreshLock = none → p'.calls d = .lockWait selector →
          (client.step p' (.acquireLock d)).isSome = true := by
  have hs := runs_consistent h
  refine ⟨fun c d selector selector' hc hd => hs.held.unique (by rw [hc]; rfl) (by rw [hd]; rfl), ?_, ?_, ?_⟩
  · intro before p e p' after c htr hstep hstart
    subst htr
    obtain ⟨rfl, ⟨selector, hc⟩, hover⟩ := startsFetch_cases (step_cases hstep) hstart
    have hp := runs_consistent h.split.1
    have hu := hp.calls c
    rw [hc] at hu
    obtain ⟨-, q, hq, hlock, hcache, hr⟩ := hu
    refine ⟨(hp.held c).mp (by rw [hc]; rfl), ?_, q, hq, hlock, hcache, reuseCachedSync_eq_none.mp hr⟩
    rw [← hp.cooling_iff, hover]
    simp
  · intro before p c after result htr hdone
    subst htr
    exact completed_inside h hdone
  · intro before p c p' after htr hstep
    subst htr
    cases step_cases hstep with
    | cancel _ =>
      refine ⟨p.dropCall_cache c, p.dropCall_retryAfter c, p.dropCall_metrics c, fun d hd => ?_, by simp,
        p.dropCall_refreshLock c, fun d selector hfree hwait => ?_⟩
      · rw [ClientState.dropCall_calls, ClientState.setPhase_calls_ne _ _ _ hd]
      · simp [step, hwait, hfree]

/-! ### Two calls on a cold cache -/

def burstClient : Client := ⟨vectorConfig, ⟨Duration.fromSecs 60, 0, Duration.fromSecs 15⟩⟩

def burstSelector : BitwardenSelector := ⟨"id:item-a".toList, none⟩

/-- The first call fetches while the second waits for the lock. -/
def burstEvents : List ClientEvent :=
  [.begin 0 burstSelector, .begin 1 burstSelector, .checkCache 0, .checkCache 1, .acquireLock 0, .recheckCache 0,
    .checkCooldown 0]

theorem burst_isSome : (Run.exec burstClient.step ClientState.init burstEvents).isSome = true := by rfl

theorem refresh_single_flight_burst : ∃ tr s, burstClient.Runs tr s ∧ s.calls 0 = .fetching burstSelector ∧
    s.calls 1 = .lockWait burstSelector ∧ ∀ d selector, s.calls d = .fetching selector → d = 0 := by
  have hrun := Run.of_isSome burstEvents burst_isSome
  refine ⟨_, _, hrun, rfl, rfl, fun d selector hd => ?_⟩
  exact (refresh_single_flight burstClient _ _ hrun).1 d 0 selector burstSelector hd rfl

end Bweso
