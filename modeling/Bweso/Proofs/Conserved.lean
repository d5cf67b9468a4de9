import Bweso.Proofs.Recorded

/-! Every call of `ensure_fresh_cached_sync` enters the cache metrics once. What
a call adds to them is settled by how it ends, and there are six ways to end;
the totals are sums over the calls. -/

namespace Bweso

/-- Inside `ensure_fresh_cached_sync`. -/
@[simp] def Phase.ensuring : Phase → Bool
  | .idle | .reading _ | .done _ | .cancelled => false
  | _ => true

/-- What `ensure_fresh_cached_sync` returns when a call moves from `p` to `p'`. -/
@[simp] def Phase.ensureReturn (p p' : Phase) : List (Except BitwardenClientError Unit) :=
  if p.ensuring then
    match p' with
    | .reading _ => [.ok ()]
    | .done (.error e) => [.error e]
    | _ => []
  else []

/-- What one call added to the metrics, its attempts of `fetch_vault`, and what it
returned. -/
structure CallBooks where
  hits : ℕ
  staleServes : ℕ
  successes : ℕ
  failures : ℕ
  attempts : ℕ
  failedAttempts : ℕ
  returned : List (Except BitwardenClientError Unit)

namespace CallBooks

@[simp] def empty : CallBooks := ⟨0, 0, 0, 0, 0, 0, []⟩

@[simp] def append (a b : CallBooks) : CallBooks :=
  ⟨a.hits + b.hits, a.staleServes + b.staleServes, a.successes + b.successes, a.failures + b.failures,
    a.attempts + b.attempts, a.failedAttempts + b.failedAttempts, a.returned ++ b.returned⟩

/-- The ways a call can end. -/
inductive Closed : CallBooks → Prop
  | hit : Closed ⟨1, 0, 0, 0, 0, 0, [.ok ()]⟩
  | deferred : Closed ⟨0, 1, 0, 0, 0, 0, [.ok ()]⟩
  | refreshed : Closed ⟨0, 0, 1, 0, 1, 0, [.ok ()]⟩
  | stale : Closed ⟨0, 1, 0, 1, 1, 1, [.ok ()]⟩
  | throttled : Closed ⟨0, 0, 0, 0, 0, 0, [.error (.api .refreshThrottled)]⟩
  | failed {e : BitwardenClientError} (he : e ≠ .api .refreshThrottled) : Closed ⟨0, 0, 0, 1, 1, 1, [.error e]⟩

/-- The books of a call by where it stands. -/
@[simp] def At (b : CallBooks) : Phase → Prop
  | .idle | .ensure _ | .lockWait _ | .locked _ | .cooldown _ => b = empty
  | .fetching _ => b = ⟨0, 0, 0, 0, 1, 0, []⟩
  | .failed _ e | .staleWait _ e _ => e ≠ .api .refreshThrottled ∧ b = ⟨0, 0, 0, 1, 1, 1, []⟩
  | .storeWait .. => b = ⟨0, 0, 1, 0, 1, 0, []⟩
  | .reading _ | .done _ | .cancelled => b.Closed

theorem append_empty (b : CallBooks) : b.append empty = b := by simp

end CallBooks

namespace Client

variable (client : Client)

/-- The state after a step of a trace. -/
def after (x : ClientState × ClientEvent) : ClientState := (client.step x.1 x.2).getD x.1

/-- The call `c` enters `fetch_vault`. -/
def startsFetch (c : CallId) (x : ClientState × ClientEvent) : Bool :=
  ((client.after x).calls c).isFetching && !(x.1.calls c).isFetching

@[simp] def fetchFails : ClientEvent → Bool
  | .fetchReturns _ up _ => !(fetchVault client.config up).isOk
  | _ => false

/-- What the step adds to the books of the call `c`. -/
def entry (c : CallId) (x : ClientState × ClientEvent) : CallBooks :=
  if x.2.call = some c then
    let m := x.1.metrics
    let m' := (client.after x).metrics
    { hits := m'.cacheHits - m.cacheHits
      staleServes := m'.staleServes - m.staleServes
      successes := m'.refreshSuccesses - m.refreshSuccesses
      failures := m'.refreshFailures - m.refreshFailures
      attempts := if client.startsFetch c x then 1 else 0
      failedAttempts := if client.fetchFails x.2 then 1 else 0
      returned := (x.1.calls c).ensureReturn ((client.after x).calls c) }
  else .empty

def books (tr : Trace) (c : CallId) : CallBooks :=
  tr.foldl (fun b x => b.append (client.entry c x)) .empty

def beginId : ClientState × ClientEvent → Option CallId
  | (_, .begin c _) => some c
  | _ => none

/-- The calls of a run. -/
def begun (tr : Trace) : Finset CallId := (tr.filterMap beginId).toFinset

/-- The attempts of `fetch_vault` in a run. -/
def fetchAttempts (tr : Trace) : ℕ := tr.countP fun x => x.2.call.any (client.startsFetch · x)

def returnedOk (tr : Trace) : Finset CallId := (begun tr).filter fun c => (client.books tr c).returned = [.ok ()]

def isOtherError : List (Except BitwardenClientError Unit) → Bool
  | [.error e] => e ≠ .api .refreshThrottled
  | _ => false

/-- The calls that returned an error other than `RefreshThrottled`. -/
def returnedError (tr : Trace) : Finset CallId :=
  (begun tr).filter fun c => isOtherError (client.books tr c).returned

/-- The calls that returned `Ok` after their own failed attempt. -/
def okAfterFailure (tr : Trace) : Finset CallId :=
  (client.returnedOk tr).filter fun c => 0 < (client.books tr c).failedAttempts

/-- Every call of `ensure_fresh_cached_sync` ran to its end: none was dropped
inside it and none is still there. -/
def Completed (tr : Trace) (s : ClientState) : Prop :=
  (∀ p c, (p, .cancel c) ∈ tr → (p.calls c).ensuring = false) ∧ ∀ c, (s.calls c).ensuring = false

variable {client} {tr : Trace} {s s' : ClientState} {e : ClientEvent} {c : CallId}

/-! ### One step -/

theorem after_eq (h : client.step s e = some s') : client.after (s, e) = s' := by
  rw [after, h, Option.getD_some]

theorem books_snoc (tr : Trace) (x : ClientState × ClientEvent) (c : CallId) :
    client.books (tr ++ [x]) c = (client.books tr c).append (client.entry c x) := by
  rw [books, List.foldl_append]
  rfl

theorem entry_other (h : e.call ≠ some c) : client.entry c (s, e) = .empty := by
  rw [entry, if_neg h]

/-- A call moves from `p` to `p'`. -/
theorem books_move {b : CallBooks} {p p' : Phase} (h : client.step s e = some s') (he : e.call = some c)
    (hp : s.calls c = p) (hp' : s'.calls c = p') (hb : b.At (s.calls c))
    (hmove : b.At p → (b.append
      { hits := s'.metrics.cacheHits - s.metrics.cacheHits
        staleServes := s'.metrics.staleServes - s.metrics.staleServes
        successes := s'.metrics.refreshSuccesses - s.metrics.refreshSuccesses
        failures := s'.metrics.refreshFailures - s.metrics.refreshFailures
        attempts := if p'.isFetching && !p.isFetching then 1 else 0
        failedAttempts := if client.fetchFails e then 1 else 0
        returned := p.ensureReturn p' }).At p') : (b.append (client.entry c (s, e))).At (s'.calls c) := by
  rw [hp] at hb
  have hentry := hmove hb
  rwa [entry, if_pos he, startsFetch, after_eq h, hp, hp']

/-- A step keeps a call's books where its phase says, unless it drops the call
inside `ensure_fresh_cached_sync`. -/
theorem books_step {b : CallBooks} (h : client.step s e = some s')
    (hcancel : e = .cancel c → (s.calls c).ensuring = false) (hb : b.At (s.calls c)) :
    (b.append (client.entry c (s, e))).At (s'.calls c) := by
  by_cases he : e.call = some c
  · have hstep := step_cases h
    cases hstep
    case tick => simp [ClientEvent.call] at he
    all_goals obtain rfl := Option.some.inj he
    case cancel d ha =>
      have hout := hcancel rfl
      have hdrop : (s.dropCall d).calls d = .cancelled := by
        rw [ClientState.dropCall_calls, ClientState.setPhase_calls_self]
      -- of the phases outside, only the reading of the cache awaits
      cases hp : s.calls d
      case reading => exact books_move h he hp hdrop hb (by simp)
      case idle | done | cancelled => simp [hp, Phase.awaits] at ha
      all_goals simp [hp] at hout
    case begin hp =>
      exact books_move h he hp (ClientState.setPhase_calls_self _ _ _) hb (by simp +contextual)
    case hit r hp _ =>
      refine books_move h he hp (ClientState.setPhase_calls_self _ _ _) hb ?_
      rintro rfl
      cases r
      · simpa [CacheMetricState.countReuse] using .hit
      · simpa [CacheMetricState.countReuse] using .deferred
    case rehit r hp _ =>
      refine books_move h he hp (ClientState.setPhase_calls_self _ _ _) hb ?_
      rintro rfl
      cases r
      · simpa [CacheMetricState.countReuse] using .hit
      · simpa [CacheMetricState.countReuse] using .deferred
    case miss hp _ | acquire hp _ | remiss hp _ | startFetch hp _ | sample hp _ =>
      exact books_move h he hp (ClientState.setPhase_calls_self _ _ _) hb (by simp +contextual)
    case throttled hp _ =>
      refine books_move h he hp (ClientState.setPhase_calls_self _ _ _) hb ?_
      rintro rfl
      simpa using .throttled
    case fetched hp hf =>
      refine books_move h he hp (ClientState.setPhase_calls_self _ _ _) hb ?_
      rintro rfl
      simp [hf, Except.isOk, Except.toBool]
    case fetchFailed hp hf =>
      refine books_move h he hp (ClientState.setPhase_calls_self _ _ _) hb ?_
      rintro rfl
      exact ⟨(fetchVault_error hf).2, by simp [hf, Except.isOk, Except.toBool]⟩
    case giveUp hp _ =>
      refine books_move h he hp (ClientState.setPhase_calls_self _ _ _) hb ?_
      rintro ⟨hne, rfl⟩
      simpa using .failed hne
    case expired hp _ =>
      refine books_move h he hp (ClientState.setPhase_calls_self _ _ _) hb ?_
      rintro ⟨hne, rfl⟩
      simpa using .failed hne
    case stale hp hs =>
      obtain ⟨v, hv, -, rfl⟩ := (serveStaleAfterError_eq_some client).mp hs
      refine books_move h he hp (ClientState.setPhase_calls_self _ _ _) hb ?_
      rintro ⟨-, rfl⟩
      simpa using .stale
    case store hp =>
      refine books_move h he hp (ClientState.setPhase_calls_self _ _ _) hb ?_
      rintro rfl
      simpa using .refreshed
    case read hp => exact books_move h he hp (ClientState.setPhase_calls_self _ _ _) hb (by simp)
  · rw [step_frame (step_cases h) he, entry_other he, CallBooks.append_empty]
    exact hb

/-! ### Whole runs -/

theorem runs_books (h : client.Runs tr s) (hcancel : ∀ p d, (p, .cancel d) ∈ tr → (p.calls d).ensuring = false)
    (c : CallId) : (client.books tr c).At (s.calls c) := by
  induction h with
  | nil => rfl
  | @snoc tr s s' e hrun hstep ih =>
    rw [books_snoc]
    refine books_step hstep (fun he => ?_) (ih fun p d hm => hcancel p d (List.mem_append_left _ hm))
    exact hcancel s c (by simp [he])

theorem idle_of_not_begun (h : client.Runs tr s) (hc : c ∉ begun tr) : s.calls c = .idle := by
  induction h with
  | nil => rfl
  | @snoc tr s s' e hrun hstep ih =>
    have hbefore : c ∉ begun tr ∧ ∀ selector, e ≠ .begin c selector := by
      refine ⟨fun hm => hc ?_, ?_⟩
      · simp only [begun, List.filterMap_append, List.toFinset_append, Finset.mem_union]
        exact Or.inl hm
      · rintro selector rfl
        exact hc (by simp [begun, beginId])
    exact idle_step (step_cases hstep) hbefore.2 (ih hbefore.1)

theorem not_idle_of_step (h : client.Step s e s') (he : e.call = some c) : s'.calls c ≠ .idle := by
  intro hc
  cases h
  case tick => simp [ClientEvent.call] at he
  case stale hp hs =>
    obtain ⟨v, -, -, rfl⟩ := (serveStaleAfterError_eq_some client).mp hs
    obtain rfl := Option.some.inj he
    simp at hc
  all_goals
    obtain rfl := Option.some.inj he
    simp at hc

/-- A quantity that every step raises by what it enters into the books of its
call is the sum over the calls. -/
theorem total {F : Trace → ClientState → ℕ} {g : CallBooks → ℕ} (hzero : F [] ClientState.init = 0)
    (hempty : g .empty = 0) (happend : ∀ a b : CallBooks, g (a.append b) = g a + g b)
    (hF : ∀ tr s e s', client.step s e = some s' →
      F (tr ++ [(s, e)]) s' = F tr s + e.call.elim 0 fun c => g (client.entry c (s, e)))
    (h : client.Runs tr s) {calls : Finset CallId} (hcalls : ∀ c, s.calls c ≠ .idle → c ∈ calls) :
    F tr s = ∑ c ∈ calls, g (client.books tr c) := by
  induction h with
  | nil =>
    have hbooks : ∀ c, client.books [] c = .empty := fun c => rfl
    simp only [hzero, hbooks, hempty, Finset.sum_const_zero]
  | @snoc tr s s' e hrun hstep ih =>
    have hbefore := ih fun c hc => hcalls c fun hc' => hc (idle_of_step (step_cases hstep) hc')
    have hentries : ∑ c ∈ calls, g (client.entry c (s, e)) = e.call.elim 0 fun c => g (client.entry c (s, e)) := by
      cases he : e.call with
      | none => exact Finset.sum_eq_zero fun c _ => by rw [entry_other (by simp [he]), hempty]
      | some c =>
        refine Finset.sum_eq_single_of_mem c (hcalls c (not_idle_of_step (step_cases hstep) he)) fun d _ hd => ?_
        rw [entry_other (by simpa [he] using Ne.symm hd), hempty]
    simp only [books_snoc, happend, Finset.sum_add_distrib, hentries, hF _ _ _ _ hstep, hbefore]

theorem metrics_step (h : client.Step s e s') :
    s.metrics.cacheHits ≤ s'.metrics.cacheHits ∧ s.metrics.staleServes ≤ s'.metrics.staleServes ∧
      s.metrics.refreshSuccesses ≤ s'.metrics.refreshSuccesses ∧
      s.metrics.refreshFailures ≤ s'.metrics.refreshFailures := by
  cases h
  case hit r _ _ | rehit r _ _ => cases r <;> simp [CacheMetricState.countReuse]
  case stale hs =>
    obtain ⟨v, -, -, rfl⟩ := (serveStaleAfterError_eq_some client).mp hs
    simp
  all_goals simp

theorem metrics_tick (h : client.Step s e s') (he : e.call = none) : s'.metrics = s.metrics := by
  cases h
  case tick => rfl
  all_goals cases he

/-- A counter of the metrics is the sum of what the calls added to it. -/
theorem total_metric {f : CacheMetricState → ℕ} {g : CallBooks → ℕ} (hzero : f ⟨0, 0, 0, 0, 0⟩ = 0)
    (hempty : g .empty = 0) (happend : ∀ a b : CallBooks, g (a.append b) = g a + g b)
    (hentry : ∀ s e s' c, client.step s e = some s' → e.call = some c →
      f s'.metrics = f s.metrics + g (client.entry c (s, e)))
    (h : client.Runs tr s) {calls : Finset CallId} (hcalls : ∀ c, s.calls c ≠ .idle → c ∈ calls) :
    f s.metrics = ∑ c ∈ calls, g (client.books tr c) := by
  refine @total client tr s (fun _ s => f s.metrics) g hzero hempty happend (fun tr s e s' hstep => ?_) h calls hcalls
  cases he : e.call with
  | none =>
    rw [metrics_tick (step_cases hstep) he]
    rfl
  | some c => exact hentry s e s' c hstep he

/-- The counters and the attempts of a run, as sums over its calls. -/
structure Totals (client : Client) (tr : Trace) (s : ClientState) (calls : Finset CallId) : Prop where
  hits : s.metrics.cacheHits = ∑ c ∈ calls, (client.books tr c).hits
  staleServes : s.metrics.staleServes = ∑ c ∈ calls, (client.books tr c).staleServes
  successes : s.metrics.refreshSuccesses = ∑ c ∈ calls, (client.books tr c).successes
  failures : s.metrics.refreshFailures = ∑ c ∈ calls, (client.books tr c).failures
  attempts : client.fetchAttempts tr = ∑ c ∈ calls, (client.books tr c).attempts

theorem runs_totals (h : client.Runs tr s) {calls : Finset CallId} (hcalls : ∀ c, s.calls c ≠ .idle → c ∈ calls) :
    client.Totals tr s calls := by
  refine ⟨?_, ?_, ?_, ?_, ?_⟩
  · refine total_metric rfl rfl (fun a b => rfl) (fun s e s' c hstep he => ?_) h hcalls
    have hle := (metrics_step (step_cases hstep)).1
    simp only [entry, he, if_true, after_eq hstep]
    omega
  · refine total_metric rfl rfl (fun a b => rfl) (fun s e s' c hstep he => ?_) h hcalls
    have hle := (metrics_step (step_cases hstep)).2.1
    simp only [entry, he, if_true, after_eq hstep]
    omega
  · refine total_metric rfl rfl (fun a b => rfl) (fun s e s' c hstep he => ?_) h hcalls
    have hle := (metrics_step (step_cases hstep)).2.2.1
    simp only [entry, he, if_true, after_eq hstep]
    omega
  · refine total_metric rfl rfl (fun a b => rfl) (fun s e s' c hstep he => ?_) h hcalls
    have hle := (metrics_step (step_cases hstep)).2.2.2
    simp only [entry, he, if_true, after_eq hstep]
    omega
  · refine @total client tr s (fun tr _ => client.fetchAttempts tr) CallBooks.attempts rfl rfl (fun a b => rfl)
      (fun tr s e s' hstep => ?_) h calls hcalls
    rw [fetchAttempts, List.countP_append, List.countP_singleton]
    cases he : e.call with
    | none => simp [fetchAttempts]
    | some c => simp [fetchAttempts, he, entry]

theorem not_idle_of_begun (h : client.Runs tr s) (hc : c ∈ begun tr) : s.calls c ≠ .idle := by
  induction h with
  | nil => simp [begun] at hc
  | @snoc tr s s' e hrun hstep ih =>
    simp only [begun, List.filterMap_append, List.toFinset_append, Finset.mem_union] at hc
    rcases hc with hc | hc
    · exact fun hidle => ih hc (idle_of_step (step_cases hstep) hidle)
    · refine not_idle_of_step (step_cases hstep) ?_
      cases e <;> simp_all [beginId, ClientEvent.call]

/-- A call of a completed run has ended in one of the ways. -/
theorem closed_of_completed (h : client.Runs tr s) (hdone : Completed tr s) (hc : c ∈ begun tr) :
    (client.books tr c).Closed := by
  have hat := runs_books h hdone.1 c
  have hidle := not_idle_of_begun h hc
  have hout := hdone.2 c
  cases hp : s.calls c
  case idle => exact absurd hp hidle
  case reading | done | cancelled => rwa [hp] at hat
  all_goals simp [hp] at hout

end Client

open Client

/-- Once every call of `ensure_fresh_cached_sync` has returned, the metrics
account for all of them: as many hits, stale serves and successes as calls that
returned `Ok`, as many successes and failures as attempts of `fetch_vault`, and
a failure for every error but `RefreshThrottled` and every `Ok` after a failed
attempt. Each call, whether it waited for the refresh of another or not,
returned once and is counted once or, on an error, not at all. -/
theorem cache_metrics_conserved (client : Client) (tr : Trace) (s : ClientState) (h : client.Runs tr s)
    (hdone : Completed tr s) :
    s.metrics.cacheHits + s.metrics.staleServes + s.metrics.refreshSuccesses = (client.returnedOk tr).card ∧
    s.metrics.refreshSuccesses + s.metrics.refreshFailures = client.fetchAttempts tr ∧
    ((client.okAfterFailure tr).card ≤ s.metrics.refreshFailures ∧
      (client.returnedError tr).card = s.metrics.refreshFailures - (client.okAfterFailure tr).card) ∧
    ∀ c ∈ begun tr, ((client.books tr c).hits = 0 ∨ (client.books tr c).staleServes = 0) ∧
      ∃ r, (client.books tr c).returned = [r] ∧
        (client.books tr c).hits + (client.books tr c).staleServes + (client.books tr c).successes =
          if r.isOk then 1 else 0 := by
  obtain ⟨hhits, hstale, hsuccesses, hfailures, hattempts⟩ :=
    runs_totals h fun c hc => by_contra fun hnot => hc (idle_of_not_begun h hnot)
  have hclosed : ∀ c ∈ begun tr, (client.books tr c).Closed := fun c hc => closed_of_completed h hdone hc
  have hfailed : s.metrics.refreshFailures = (client.returnedError tr).card + (client.okAfterFailure tr).card := by
    rw [hfailures, returnedError, okAfterFailure, returnedOk, Finset.filter_filter, Finset.card_filter,
      Finset.card_filter, ← Finset.sum_add_distrib]
    refine Finset.sum_congr rfl fun c hc => ?_
    have hc' := hclosed c hc
    generalize client.books tr c = b at hc'
    cases hc' <;> simp_all [isOtherError]
  refine ⟨?_, ?_, ⟨by omega, by omega⟩, fun c hc => ?_⟩
  · rw [hhits, hstale, hsuccesses, ← Finset.sum_add_distrib, ← Finset.sum_add_distrib, returnedOk, Finset.card_filter]
    refine Finset.sum_congr rfl fun c hc => ?_
    have hc' := hclosed c hc
    generalize client.books tr c = b at hc'
    cases hc' <;> simp
  · rw [hsuccesses, hfailures, hattempts, ← Finset.sum_add_distrib]
    refine Finset.sum_congr rfl fun c hc => ?_
    have hc' := hclosed c hc
    generalize client.books tr c = b at hc'
    cases hc' <;> rfl
  · have hc' := hclosed c hc
    generalize client.books tr c = b at hc'
    cases hc' <;> simp [Except.isOk, Except.toBool]

def hitEvents : List ClientEvent := [.storeVault 0, .begin 1 outageSelector, .checkCache 1]

/-- The first call refreshes, the second finds its vault. -/
def hitTrace : Trace :=
  firstTrace ++ [(firstFetch, .fetchReturns 0 vectorUpstream 1700000000)] ++
    ((Run.exec outageClient.step firstFetched hitEvents).get (by rfl)).1

def hitState : ClientState := ((Run.exec outageClient.step firstFetched hitEvents).get (by rfl)).2

theorem cache_metrics_conserved_hit :
    hitState.metrics.cacheHits = 1 ∧ hitState.metrics.refreshSuccesses = 1 ∧
    (outageClient.returnedOk hitTrace).card = 2 ∧ outageClient.fetchAttempts hitTrace = 1 := by
  have hrun : outageClient.Runs hitTrace hitState := firstFetched_runs.append (Run.of_isSome hitEvents (by rfl))
  have hcancel : ∀ p c, (p, .cancel c) ∈ hitTrace → (p.calls c).ensuring = false := by
    intro p c hm
    simp only [hitTrace, List.mem_append, List.mem_singleton, Prod.mk.injEq, reduceCtorEq, and_false, or_false] at hm
    rcases hm with hm | hm
    · have hlabel := Run.label_mem (refreshEvents 0 outageSelector) _ hm
      simp [refreshEvents] at hlabel
    · have hlabel := Run.label_mem hitEvents _ hm
      simp [hitEvents] at hlabel
  have hout : ∀ c, (hitState.calls c).ensuring = false := by
    intro c
    by_cases hc : c ∈ begun hitTrace
    · have hbegun : begun hitTrace = {0, 1} := by rfl
      rw [hbegun, Finset.mem_insert, Finset.mem_singleton] at hc
      rcases hc with rfl | rfl
      · rfl
      · rfl
    · rw [idle_of_not_begun hrun hc]
      rfl
  obtain ⟨hok, hattempts, -, -⟩ := cache_metrics_conserved outageClient _ _ hrun ⟨hcancel, hout⟩
  exact ⟨rfl, rfl, hok.symm, hattempts.symm⟩

end Bweso
